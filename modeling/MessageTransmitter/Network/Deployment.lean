import MessageTransmitter.Network.Transmission
import MessageTransmitter.Receiver.Synchronisation

/-!
# The threads in the network

The server and the receiver with its threads and mutexes, over the same network as in
`Transmission`.  A UDP thread sends its sync command and receives its datagram when it passes
`select` under `m_mutex_message`, long before the message is in the queue, and in between the server,
the network and the TCP thread go on.  Every such run is still a run of whole rounds.
-/

open Bytes SortedAssoc Transition

namespace MessageTransmitter

/-- The server, the receiver with its threads, the datagrams in flight, and what has happened. -/
structure Deployment (ι : Type*) where
  server : Server
  threads : Threads ι
  network : List Packet := []
  built : List MessageFormat := []
  -- What became of the messages taken by `sendViaTcpSocket`, in order.
  outcomes : List SendOutcome := []

namespace Client

theorem startRound_snd_of_queue (c : Client) (queue : Container) (r : ClientRound) :
    (({ c with mContainerTcpQueue := queue } : Client).startRound r).2 = (c.startRound r).2 := by
  unfold startRound
  split_ifs
  all_goals rfl

/-- A round that sends and receives is a round that only sends and then one that only receives. -/
theorem startRound_sendOnly (c : Client) (r : ClientRound) :
    c.startRound { r with readyRecv := false } = (c, (c.startRound r).2) := by
  unfold startRound
  split_ifs
  all_goals first | rfl | contradiction

theorem startRound_recvOnly (c : Client) (r : ClientRound) :
    c.startRound { r with readySend := false } = ((c.startRound r).1, none) := by
  unfold startRound
  split_ifs
  all_goals first | rfl | contradiction

end Client

namespace Deployment

variable {ι : Type*}

inductive Event (ι : Type*) where
  | server (r : ServerRound)
  | thread (e : Threads.Event ι)
  | drop (p : Packet)

def Delivers (s : Deployment ι) (addr : SockAddr) : RecvResult → Prop
  | .error => True
  | .datagram source data => ⟨source, addr, data⟩ ∈ s.network

instance instDecidableDelivers (s : Deployment ι) (addr : SockAddr) :
    DecidablePred (s.Delivers addr)
  | .error => isTrue trivial
  | .datagram source data => inferInstanceAs (Decidable (⟨source, addr, data⟩ ∈ s.network))

/-- A UDP thread looks at what it may receive in one step only. -/
def Possible (clientAddr : SockAddr) (s : Deployment ι) : Event ι → Prop
  | .server r => s.Delivers serverAddr r.recvResult
  | .thread (.udp i r) => s.threads.udp i = .messageLocked → s.Delivers clientAddr r.recvResult
  | _ => True

instance instDecidablePossible (clientAddr : SockAddr) (s : Deployment ι) :
    DecidablePred (s.Possible clientAddr)
  | .server r => inferInstanceAs (Decidable (s.Delivers serverAddr r.recvResult))
  | .thread (.udp i r) => inferInstanceAs
      (Decidable (s.threads.udp i = .messageLocked → s.Delivers clientAddr r.recvResult))
  | .thread (.tcp _) => isTrue trivial
  | .drop _ => isTrue trivial

/-- What a step of a thread hands to the network: `send_command` comes after `select`, under
`m_mutex_message`. -/
def sentBy (s : Threads ι) : Threads.Event ι → Option Datagram
  | .udp i r => if s.udp i = .messageLocked then (s.client.startRound r).2 else none
  | .tcp _ => none

/-- The outcome that the TCP thread has just got. -/
def outcomeOf (s t : Threads ι) : List SendOutcome :=
  match s.tcp, t.tcp with
  | .removed _, .sent o => [o]
  | _, _ => []

def afterServer (s : Deployment ι) (server : Server) (out : ServerOutput) : Deployment ι :=
  { s with
    server := server
    network := s.network ++ Transmission.packets serverAddr out.datagram
    built := s.built ++ out.built.toList }

def afterThread (clientAddr : SockAddr) (s : Deployment ι) (e : Threads.Event ι) (t : Threads ι) :
    Deployment ι :=
  { s with
    threads := t
    network := s.network ++ Transmission.packets clientAddr (sentBy s.threads e)
    outcomes := s.outcomes ++ outcomeOf s.threads t }

@[simp] theorem afterThread_threads (clientAddr : SockAddr) (s : Deployment ι)
    (e : Threads.Event ι) (t : Threads ι) : (s.afterThread clientAddr e t).threads = t := rfl

def next [DecidableEq ι] (clientAddr : SockAddr) (s : Deployment ι) :
    Event ι → Except Stop (Deployment ι)
  | .server r => .ok (s.afterServer (s.server.startRound r).1 (s.server.startRound r).2)
  | .thread e => (s.threads.step e).map (s.afterThread clientAddr e)
  | .drop p => .ok { s with network := s.network.erase p }

abbrev Step [DecidableEq ι] (clientAddr : SockAddr) : Deployment ι → Event ι → Deployment ι → Prop :=
  Guarded (Possible clientAddr) (ofExcept (next clientAddr))

def start (ι : Type*) (serverSocket clientSocket : Int) (bound connected inProgress : Bool) :
    Deployment ι where
  server := Server.construct serverSocket bound
  threads := Threads.start ι clientSocket connected inProgress

/-! ## Rounds in progress -/

/-- The queue of a client whose TCP round is still to be done: the message that the TCP thread has
taken out is its first. -/
def Behind (queue queue' : Container) : TcpPhase → Prop
  | .removed msg => ∃ index, queue.empty = false ∧ queue.beginIndex = .ok index ∧
      queue.beginValue = .ok msg ∧ queue' = queue.remove index
  | _ => queue' = queue

/-- `c` is the client after the rounds done so far: a round of `sendViaTcpSocket` is done when its
message was sent or not, and one of `start` when its message is in the queue. -/
structure Matches (clientAddr : SockAddr) (s : Deployment ι) (t : Transmission) : Prop where
  synchronised : s.threads.Synchronised
  server : t.server = s.server
  built : t.built = s.built
  outcomes : t.outcomes = s.outcomes
  -- nothing is ever dropped there
  network : ∀ p ∈ s.network, p ∈ t.network
  queue : Behind t.client.mContainerTcpQueue s.threads.queue s.threads.tcp
  settled : (∀ i, (s.threads.udp i).pending = none) →
    s.threads.client = { t.client with mContainerTcpQueue := s.threads.queue }
  pending : ∀ i msg, (s.threads.udp i).pending = some msg →
    ∃ r, r.readySend = false ∧ t.Delivers clientAddr r.recvResult ∧
      ({ t.client with mContainerTcpQueue := s.threads.queue } : Client).startBeforeTcp r =
        (s.threads.client, some msg)
  sized : ∀ i msg tcpQueueSize, s.threads.udp i = .sized msg tcpQueueSize →
    tcpQueueSize = s.threads.queue.size
  isOpen : ∀ i, (s.threads.udp i).holdsMessage = true →
    s.threads.client.mUdpSocket.isOpen = true

theorem matches_start (clientAddr : SockAddr) (serverSocket clientSocket : Int)
    (bound connected inProgress : Bool) :
    (start ι serverSocket clientSocket bound connected inProgress).Matches clientAddr
      (Transmission.start serverSocket clientSocket bound connected inProgress) where
  synchronised := Threads.synchronised_start clientSocket connected inProgress
  server := rfl
  built := rfl
  outcomes := rfl
  network := fun _ hp => hp
  queue := rfl
  settled := fun _ => rfl
  pending := fun _ _ h => by cases h
  sized := fun _ _ _ h => by cases h
  isOpen := fun _ h => by cases h

/-- What may be received in a state may be received where more is in flight. -/
theorem Matches.delivers {clientAddr addr : SockAddr} {s : Deployment ι} {t : Transmission}
    (h : s.Matches clientAddr t) {res : RecvResult} (hres : s.Delivers addr res) :
    t.Delivers addr res := by
  cases res with
  | error => trivial
  | datagram source data => exact h.network _ hres

theorem delivers_mono {t t' : Transmission} {addr : SockAddr} {res : RecvResult}
    (hsub : ∀ p ∈ t.network, p ∈ t'.network) (h : t.Delivers addr res) : t'.Delivers addr res := by
  cases res with
  | error => trivial
  | datagram source data => exact hsub _ h

/-- No round of `start` touches the TCP socket, so a round in progress leaves it alone as well. -/
theorem Matches.tcpSocket {clientAddr : SockAddr} {s : Deployment ι} {t : Transmission}
    (h : s.Matches clientAddr t) : t.client.mTcpSocket = s.threads.client.mTcpSocket := by
  by_cases hsettled : ∀ i, (s.threads.udp i).pending = none
  · rw [h.settled hsettled]
  · simp only [not_forall] at hsettled
    obtain ⟨i, hi⟩ := hsettled
    obtain ⟨msg, hmsg⟩ := Option.ne_none_iff_exists'.mp hi
    obtain ⟨r, -, -, hr⟩ := h.pending i msg hmsg
    have hsocket := Client.startBeforeTcp_mTcpSocket
      { t.client with mContainerTcpQueue := s.threads.queue } r
    rw [hr] at hsocket
    exact hsocket.symm

theorem behind_iff {queue queue' : Container} {phase : TcpPhase} (h : ∀ msg, phase ≠ .removed msg) :
    Behind queue queue' phase ↔ queue' = queue := by
  cases phase with
  | removed msg => exact absurd rfl (h msg)
  | _ => exact Iff.rfl

theorem outcomeOf_eq_nil {s t : Threads ι} (h : ∀ o, t.tcp ≠ .sent o) : outcomeOf s t = [] := by
  unfold outcomeOf
  split
  · rename_i o _ htcp
    exact absurd htcp (h o)
  · rfl

theorem outcomeOf_eq_nil' {s t : Threads ι} (h : ∀ msg, s.tcp ≠ .removed msg) :
    outcomeOf s t = [] := by
  unfold outcomeOf
  split
  · rename_i msg _ htcp _
    exact absurd htcp (h msg)
  · rfl

/-! ## Steps of the TCP thread -/

section Tcp

variable {clientAddr : SockAddr} {s : Deployment ι} {t : Transmission} {v : Threads ι}
  {res : StreamResult}

/-- No round is done in a step of the TCP thread that leaves the client alone. -/
theorem Matches.tcp_move (h : s.Matches clientAddr t) (hsync : v.Synchronised)
    (hudp : v.udp = s.threads.udp) (hclient : v.client = s.threads.client)
    (hphase : ∀ msg, s.threads.tcp ≠ .removed msg) (hphase' : ∀ msg, v.tcp ≠ .removed msg) :
    (s.afterThread clientAddr (.tcp res) v).Matches clientAddr t where
  synchronised := hsync
  server := h.server
  built := h.built
  outcomes := by
    rw [afterThread, outcomeOf_eq_nil' hphase, List.append_nil]
    exact h.outcomes
  network := by
    show ∀ p ∈ s.network ++ [], p ∈ t.network
    rw [List.append_nil]
    exact h.network
  queue := by
    rw [afterThread, Threads.queue, hclient]
    exact (behind_iff hphase').mpr ((behind_iff hphase).mp h.queue)
  settled := by
    rw [afterThread, Threads.queue, hudp, hclient]
    exact h.settled
  pending := by
    rw [afterThread, Threads.queue, hudp, hclient]
    exact h.pending
  sized := by
    rw [afterThread, Threads.queue, hudp, hclient]
    exact h.sized
  isOpen := by
    rw [afterThread, hudp, hclient]
    exact h.isOpen

/-- The TCP thread takes a message out: its round is not done before it has tried to send it. -/
theorem Matches.tcp_remove (h : s.Matches clientAddr t) {index : UInt64} {msg : MessageFormat}
    (hphase : s.threads.tcp = .valued index msg) (hsync : v.Synchronised)
    (hv : v = { s.threads.setQueue (s.threads.queue.remove index) with tcp := .removed msg }) :
    (s.afterThread clientAddr (.tcp res) v).Matches clientAddr t := by
  have hknows := h.synchronised.knows
  rw [hphase] at hknows
  have hbehind := h.queue
  rw [hphase] at hbehind
  have hqueue : s.threads.queue = t.client.mContainerTcpQueue := hbehind
  subst hv
  exact {
    synchronised := hsync
    server := h.server
    built := h.built
    outcomes := by
      rw [afterThread, outcomeOf_eq_nil (fun o => by rintro ⟨⟩), List.append_nil]
      exact h.outcomes
    network := by
      show ∀ p ∈ s.network ++ [], p ∈ t.network
      rw [List.append_nil]
      exact h.network
    queue := by
      rw [hqueue] at hknows
      exact ⟨index, hknows.1, hknows.2.1, hknows.2.2, by rw [← hqueue]; rfl⟩
    settled := fun hnone => by
      show ({ s.threads.client with mContainerTcpQueue := _ } : Client) = _
      rw [h.settled hnone]
      rfl
    pending := fun i m hm => by
      obtain ⟨r, hr, hdel, hround⟩ := h.pending i m hm
      refine ⟨r, hr, hdel, ?_⟩
      have hother := Client.startBeforeTcp_of_queue
        { t.client with mContainerTcpQueue := s.threads.queue } (s.threads.queue.remove index) r
      rw [hround] at hother
      exact hother
    sized := fun i m size hm => by
      -- a thread that has asked for the size keeps the TCP thread out
      have hout := h.synchronised.tcp_outside (i := i) (by
        rw [show s.threads.udp i = .sized m size from hm]
        rfl)
      rw [hphase] at hout
      cases hout
    isOpen := h.isOpen }

/-- A round of `sendViaTcpSocket` is done when `send` has returned or was left out. -/
theorem Matches.tcp_send (h : s.Matches clientAddr t) {msg : MessageFormat} {o : SendOutcome}
    (hphase : s.threads.tcp = .removed msg) (hsync : v.Synchronised)
    (ho : o =
      { msg := msg
        badMessageId := msg.messageId % tcpResendID ≠ 0
        wasSent :=
          if s.threads.client.mTcpSocket.connected then TCPSocket.sendBytes res else false })
    (hv : v = { s.threads with tcp := .sent o }) :
    ∃ t', Transmission.Step clientAddr t (.tcp res) t' ∧
      (s.afterThread clientAddr (.tcp res) v).Matches clientAddr t' := by
  have hbehind := h.queue
  rw [hphase] at hbehind
  obtain ⟨index, hempty, hindex, hvalue, hqueue⟩ := hbehind
  have hround : t.client.sendRound res =
      .ok ({ t.client with mContainerTcpQueue := t.client.mContainerTcpQueue.remove index }, o) := by
    rw [ho, ← h.tcpSocket, Client.sendRound, hindex, hvalue]
    rfl
  refine ⟨t.afterTcp { t.client with
    mContainerTcpQueue := t.client.mContainerTcpQueue.remove index } o, ⟨trivial, ?_⟩, ?_⟩
  · show (if t.client.mContainerTcpQueue.empty then .ok t
      else (t.client.sendRound res).map fun p => t.afterTcp p.1 p.2) = _
    rw [hempty, hround]
    rfl
  · subst hv
    exact {
      synchronised := hsync
      server := h.server
      built := h.built
      outcomes := by
        show t.outcomes ++ [_] = s.outcomes ++ outcomeOf s.threads _
        rw [h.outcomes, outcomeOf, hphase]
      network := by
        show ∀ p ∈ s.network ++ [], p ∈ t.network
        rw [List.append_nil]
        exact h.network
      queue := hqueue
      settled := h.settled
      pending := h.pending
      sized := h.sized
      isOpen := h.isOpen }

theorem Matches.tcpStep (h : s.Matches clientAddr t) (hsync : v.Synchronised)
    (hstep : s.threads.tcpStep res = .ok v) :
    ∃ rounds t', Run (Transmission.Step clientAddr) t rounds t' ∧
      (s.afterThread clientAddr (.tcp res) v).Matches clientAddr t' := by
  have hmove := Threads.tcpMove_of_step hstep
  cases hmove with
  | lock hphase hfree =>
    refine ⟨[], t, .nil, h.tcp_move hsync rfl rfl (fun msg heq => ?_) fun _ => nofun⟩
    rw [heq] at hphase
    rcases hphase with hphase | hphase
    · cases hphase
    · cases hphase
  | check hphase =>
    refine ⟨[], t, .nil, h.tcp_move hsync rfl rfl (fun msg heq => ?_) fun msg => ?_⟩
    · rw [heq] at hphase
      cases hphase
    · show (if s.threads.queue.empty then TcpPhase.parking else .ready) ≠ _
      split
      · nofun
      · nofun
  | park hphase | wake _ hphase | index _ hphase _ | value _ _ hphase _ | unlock _ hphase =>
    refine ⟨[], t, .nil, h.tcp_move hsync rfl rfl (fun msg heq => ?_) fun _ => nofun⟩
    rw [heq] at hphase
    cases hphase
  | remove index msg hphase => exact ⟨[], t, .nil, h.tcp_remove hphase hsync rfl⟩
  | send msg hphase =>
    obtain ⟨t', hround, ht'⟩ := h.tcp_send hphase hsync rfl rfl
    exact ⟨[.tcp res], t', Run.nil.snoc hround, ht'⟩

end Tcp

/-! ## Steps of the UDP threads -/

section Udp

variable [DecidableEq ι] {clientAddr : SockAddr} {s : Deployment ι} {t : Transmission}
  {v : Threads ι} {i : ι} {r : ClientRound}

/-- A UDP thread takes or gives back a mutex, asks for the size or notifies: no round is done, and
nothing is sent. -/
theorem Matches.udp_move (h : s.Matches clientAddr t) {phase : UdpPhase} (hsync : v.Synchronised)
    (hudp : v.udp = (s.threads.setUdp i phase).udp) (hclient : v.client = s.threads.client)
    (htcp : v.tcp = s.threads.tcp ∨ v.tcp = s.threads.tcp.notify)
    (hlocked : s.threads.udp i ≠ .messageLocked)
    (hpending : phase.pending = (s.threads.udp i).pending)
    (hsized : ∀ msg tcpQueueSize, phase = .sized msg tcpQueueSize →
      tcpQueueSize = s.threads.queue.size)
    (hopen : s.threads.client.mUdpSocket.isOpen = true) :
    (s.afterThread clientAddr (.udp i r) v).Matches clientAddr t := by
  have hsame : ∀ j, (v.udp j).pending = (s.threads.udp j).pending := fun j => by
    rw [hudp]
    by_cases hj : j = i
    · rw [hj, Threads.setUdp_self, hpending]
    · rw [Threads.setUdp_of_ne s.threads hj]
  -- `notify` changes a phase only while the TCP thread waits
  have hphase : ∀ q q', Behind q q' s.threads.tcp → Behind q q' v.tcp := fun q q' hq => by
    rcases htcp with htcp | htcp
    · rw [htcp]
      exact hq
    · rw [htcp]
      cases hold : s.threads.tcp with
      | parked _ => rw [hold] at hq; exact hq
      | _ => rw [hold] at hq; exact hq
  have hnone : outcomeOf s.threads v = [] := by
    rcases htcp with htcp | htcp
    · unfold outcomeOf
      rw [htcp]
      cases s.threads.tcp <;> rfl
    · unfold outcomeOf
      rw [htcp]
      cases s.threads.tcp <;> rfl
  exact {
    synchronised := hsync
    server := h.server
    built := h.built
    outcomes := by
      rw [afterThread, hnone, List.append_nil]
      exact h.outcomes
    network := by
      rw [afterThread, show sentBy s.threads (.udp i r) = none from if_neg hlocked]
      show ∀ p ∈ s.network ++ [], p ∈ t.network
      rw [List.append_nil]
      exact h.network
    queue := by
      rw [afterThread, Threads.queue, hclient]
      exact hphase _ _ h.queue
    settled := fun hall => by
      rw [afterThread, Threads.queue, hclient]
      exact h.settled fun j => (hsame j).symm.trans (hall j)
    pending := fun j msg hj => by
      rw [afterThread, Threads.queue, hclient]
      exact h.pending j msg ((hsame j).symm.trans hj)
    sized := fun j msg tcpQueueSize hj => by
      rw [afterThread, Threads.queue, hclient]
      rw [afterThread, hudp] at hj
      by_cases hij : j = i
      · rw [hij, Threads.setUdp_self] at hj
        exact hsized msg tcpQueueSize hj
      · rw [Threads.setUdp_of_ne s.threads hij] at hj
        exact h.sized j msg tcpQueueSize hj
    isOpen := fun _ _ => by
      rw [afterThread, hclient, hopen] }

/-- At most one thread is in the middle of a round, so the others need not be looked at. -/
theorem matches_of_others (hsync : s.threads.Synchronised) (hserver : t.server = s.server)
    (hbuilt : t.built = s.built) (houtcomes : t.outcomes = s.outcomes)
    (hnetwork : ∀ p ∈ s.network, p ∈ t.network)
    (hqueue : Behind t.client.mContainerTcpQueue s.threads.queue s.threads.tcp)
    (hothers : ∀ j, j ≠ i → (s.threads.udp j).pending = none)
    (hsettled : (s.threads.udp i).pending = none →
      s.threads.client = { t.client with mContainerTcpQueue := s.threads.queue })
    (hpending : ∀ msg, (s.threads.udp i).pending = some msg →
      ∃ r, r.readySend = false ∧ t.Delivers clientAddr r.recvResult ∧
        ({ t.client with mContainerTcpQueue := s.threads.queue } : Client).startBeforeTcp r =
          (s.threads.client, some msg))
    (hsized : ∀ msg tcpQueueSize, s.threads.udp i ≠ .sized msg tcpQueueSize)
    (hopen : s.threads.client.mUdpSocket.isOpen = true) : s.Matches clientAddr t where
  synchronised := hsync
  server := hserver
  built := hbuilt
  outcomes := houtcomes
  network := hnetwork
  queue := hqueue
  settled hnone := hsettled (hnone i)
  pending j msg hj := by
    by_cases hij : j = i
    · exact hpending msg (hij ▸ hj)
    · rw [hothers j hij] at hj
      cases hj
  sized j msg tcpQueueSize hj := by
    by_cases hij : j = i
    · exact absurd (hij ▸ hj) (hsized msg tcpQueueSize)
    · have hnone := hothers j hij
      rw [hj] at hnone
      cases hnone
  isOpen _ _ := hopen

/-- The thread passes `select`: its command leaves now, in a round that only sends.  The round that
receives is done as well if there is nothing to insert. -/
theorem Matches.udp_save (h : s.Matches clientAddr t) (hlocked : s.threads.udp i = .messageLocked)
    (hdelivers : s.Delivers clientAddr r.recvResult) (hsync : v.Synchronised)
    (hv : v = { s.threads.setUdp i
        ((s.threads.client.startBeforeTcp r).2.elim .finished .queueing) with
      client := (s.threads.client.startBeforeTcp r).1 }) :
    ∃ rounds t', Run (Transmission.Step clientAddr) t rounds t' ∧
      (s.afterThread clientAddr (.udp i r) v).Matches clientAddr t' := by
  have hin : (s.threads.udp i).holdsMessage = true := by rw [hlocked]; rfl
  have hothers : ∀ j, j ≠ i → (v.udp j).pending = none := fun j hj => by
    rw [hv]
    exact h.synchronised.setUdp_pending hin _ j hj
  have hclient : s.threads.client = { t.client with mContainerTcpQueue := s.threads.queue } :=
    h.settled fun j => by
      by_cases hj : j = i
      · rw [hj, hlocked]
        rfl
      · exact h.synchronised.pending_of_ne hin hj
  have hopen := (Client.startBeforeTcp_isOpen s.threads.client r).trans (h.isOpen i hin)
  have hbefore : s.threads.client.startBeforeTcp r =
      ({ (t.client.startBeforeTcp r).1 with mContainerTcpQueue := s.threads.queue },
        (t.client.startBeforeTcp r).2) := by
    rw [hclient, Client.startBeforeTcp_of_queue]
  have hqueue : v.queue = s.threads.queue := by
    rw [hv]
    exact Client.startBeforeTcp_queue s.threads.client r
  have hsent : sentBy s.threads (.udp i r) = (t.client.startRound r).2 := by
    rw [sentBy, if_pos hlocked, hclient, Client.startRound_snd_of_queue]
  have htcp : v.tcp = s.threads.tcp := by rw [hv, Threads.setUdp]
  have hnone : outcomeOf s.threads v = [] := by
    unfold outcomeOf
    rw [htcp]
    cases s.threads.tcp <;> rfl
  have hrest := h.delivers hdelivers
  -- the round that only sends
  have hsend : Transmission.Step clientAddr t (.client { r with readyRecv := false })
      (t.afterClient clientAddr t.client (t.client.startRound r).2) := by
    refine ⟨hrest, ?_⟩
    show Except.ok (t.afterClient clientAddr _ _) = _
    rw [Client.startRound_sendOnly]
  have hnetwork : ∀ p ∈ (s.afterThread clientAddr (.udp i r) v).network,
      p ∈ (t.afterClient clientAddr t.client (t.client.startRound r).2).network := by
    intro p hp
    rw [afterThread, hsent] at hp
    rcases List.mem_append.mp hp with hp | hp
    · exact List.mem_append_left _ (h.network p hp)
    · exact List.mem_append_right _ hp
  have houtcomes : t.outcomes = (s.afterThread clientAddr (.udp i r) v).outcomes := by
    rw [afterThread, hnone, List.append_nil]
    exact h.outcomes
  have hvclient : v.client = (s.threads.client.startBeforeTcp r).1 := by rw [hv]
  have hvopen : v.client.mUdpSocket.isOpen = true := by rw [hvclient, hopen]
  have hphase : v.udp i = (t.client.startBeforeTcp r).2.elim .finished .queueing := by
    rw [hv, show (s.threads.client.startBeforeTcp r).2 = (t.client.startBeforeTcp r).2 by
      rw [hbefore]]
    exact Threads.setUdp_self s.threads i _
  cases hmsg : (t.client.startBeforeTcp r).2 with
  | some msg =>
    rw [hmsg] at hphase
    refine ⟨[_], _, Run.nil.snoc hsend, matches_of_others (i := i) hsync h.server h.built houtcomes
      hnetwork ?_ hothers (fun hi => ?_) (fun m hi => ?_) (fun m size hi => ?_) hvopen⟩
    · show Behind t.client.mContainerTcpQueue v.queue v.tcp
      rw [hqueue, htcp]
      exact h.queue
    · rw [afterThread_threads, hphase] at hi
      cases hi
    · rw [afterThread_threads, hphase] at hi
      refine ⟨{ r with readySend := false }, rfl,
        delivers_mono (fun p hp => List.mem_append_left _ hp) hrest, ?_⟩
      show ({ t.client with mContainerTcpQueue := v.queue } : Client).startBeforeTcp r =
        (v.client, some m)
      rw [hqueue, ← hclient, hvclient, ← hi]
      exact Prod.ext rfl ((congrArg Prod.snd hbefore).trans hmsg)
    · rw [afterThread_threads, hphase] at hi
      cases hi
  | none =>
    rw [hmsg] at hphase
    have hopen' : t.client.mUdpSocket.isOpen = true := by
      have hin := h.isOpen i hin
      rw [hclient] at hin
      exact hin
    -- and the round that only receives
    have hround : (t.client.startRound r).1 = (t.client.startBeforeTcp r).1 := by
      rw [Client.startRound_eq hopen', hmsg]
      rfl
    have hrecv : Transmission.Step clientAddr
        (t.afterClient clientAddr t.client (t.client.startRound r).2)
        (.client { r with readySend := false })
        ((t.afterClient clientAddr t.client (t.client.startRound r).2).afterClient clientAddr
          (t.client.startBeforeTcp r).1 none) := by
      refine ⟨delivers_mono (fun p hp => List.mem_append_left _ hp) hrest, ?_⟩
      show Except.ok ((t.afterClient clientAddr t.client _).afterClient clientAddr
        (t.client.startRound { r with readySend := false }).1
        (t.client.startRound { r with readySend := false }).2) = _
      rw [Client.startRound_recvOnly, hround]
    refine ⟨[_, _], _, (Run.nil.snoc hsend).snoc hrecv, matches_of_others (i := i) hsync h.server
      h.built houtcomes (fun p hp => List.mem_append_left _ (hnetwork p hp)) ?_ hothers
      (fun hi => ?_) (fun m hi => ?_) (fun m size hi => ?_) hvopen⟩
    · show Behind (t.client.startBeforeTcp r).1.mContainerTcpQueue v.queue v.tcp
      rw [hqueue, htcp, Client.startBeforeTcp_queue]
      exact h.queue
    · show v.client = { (t.client.startBeforeTcp r).1 with mContainerTcpQueue := v.queue }
      rw [hvclient, hqueue, hbefore]
    · rw [afterThread_threads, hphase] at hi
      cases hi
    · rw [afterThread_threads, hphase] at hi
      cases hi

/-- The second part of a round: its message goes in under the size that the thread has asked for. -/
theorem Matches.udp_insert (h : s.Matches clientAddr t) {msg : MessageFormat} {tcpQueueSize : UInt64}
    (hsized : s.threads.udp i = .sized msg tcpQueueSize) (hsync : v.Synchronised)
    (hv : v = (s.threads.setQueue (s.threads.queue.insert tcpQueueSize msg)).setUdp i .inserted) :
    ∃ rounds t', Run (Transmission.Step clientAddr) t rounds t' ∧
      (s.afterThread clientAddr (.udp i r) v).Matches clientAddr t' := by
  have hin : (s.threads.udp i).holdsMessage = true := by rw [hsized]; rfl
  have hout : ∀ msg, s.threads.tcp ≠ .removed msg := fun msg heq => by
    have hout := h.synchronised.tcp_outside (i := i) (by rw [hsized]; rfl)
    rw [heq] at hout
    cases hout
  have hqueue : s.threads.queue = t.client.mContainerTcpQueue := (behind_iff hout).mp h.queue
  obtain ⟨ρ, hsend, hdelivers, hround⟩ := h.pending i msg (by rw [hsized, UdpPhase.pending])
  rw [hqueue] at hround
  have hopen : t.client.mUdpSocket.isOpen = true := by
    rw [← Client.startBeforeTcp_isOpen t.client ρ, hround]
    exact h.isOpen i hin
  have hdone : t.client.startRound ρ = (v.client, none) := by
    have hfst := Client.startRound_eq hopen ρ
    rw [hround, Client.queueForTcp] at hfst
    have honly := Client.startRound_recvOnly t.client ρ
    rw [show ({ ρ with readySend := false } : ClientRound) = ρ by rw [← hsend], hfst] at honly
    rw [honly, hv, h.sized i msg tcpQueueSize hsized]
    rfl
  have hstep : Transmission.Step clientAddr t (.client ρ)
      (t.afterClient clientAddr v.client none) := by
    refine ⟨hdelivers, ?_⟩
    show Except.ok (t.afterClient clientAddr _ _) = _
    rw [hdone]
  have hphase : v.udp i = .inserted := by
    rw [hv]
    exact Threads.setUdp_self _ i _
  have htcp : v.tcp = s.threads.tcp := by rw [hv, Threads.setUdp, Threads.setQueue]
  refine ⟨[_], _, Run.nil.snoc hstep, matches_of_others (i := i) hsync h.server h.built ?_
    (fun p hp => ?_) ?_ (fun j hj => ?_) (fun _ => rfl) (fun m hi => ?_) (fun m size hi => ?_) ?_⟩
  · rw [afterThread, outcomeOf_eq_nil' hout, List.append_nil]
    exact h.outcomes
  · rw [afterThread, show sentBy s.threads (.udp i r) = none from if_neg (by rw [hsized]; exact UdpPhase.noConfusion)] at hp
    rcases List.mem_append.mp hp with hp | hp
    · exact List.mem_append_left _ (h.network p hp)
    · cases hp
  · exact (behind_iff (htcp ▸ hout)).mpr rfl
  · rw [afterThread_threads, hv]
    exact h.synchronised.setUdp_pending hin _ j hj
  · rw [afterThread_threads, hphase] at hi
    cases hi
  · rw [afterThread_threads, hphase] at hi
    cases hi
  · rw [afterThread_threads, hv]
    exact h.isOpen i hin

theorem Matches.udpStep (h : s.Matches clientAddr t) (hsync : v.Synchronised)
    (hpossible : s.Possible clientAddr (.thread (.udp i r))) (hstep : s.threads.udpStep i r = .ok v) :
    ∃ rounds t', Run (Transmission.Step clientAddr) t rounds t' ∧
      (s.afterThread clientAddr (.udp i r) v).Matches clientAddr t' := by
  have hopen := h.isOpen i
  have hmove := Threads.udpMove_of_step hstep
  cases hmove with
  | lockMessage hphase hopen _ =>
    exact ⟨[], t, .nil, h.udp_move hsync rfl rfl (.inl rfl) (by rw [hphase]; nofun)
      (by rw [hphase]; rfl) (fun _ _ => nofun) hopen⟩
  | save hphase => exact h.udp_save hphase (hpossible hphase) hsync rfl
  | lockTcp msg hphase _ =>
    exact ⟨[], t, .nil, h.udp_move hsync rfl rfl (.inl rfl) (by rw [hphase]; nofun)
      (by rw [hphase]; rfl) (fun _ _ => nofun) (hopen (by rw [hphase]; rfl))⟩
  | size msg hphase =>
    exact ⟨[], t, .nil, h.udp_move hsync rfl rfl (.inl rfl) (by rw [hphase]; nofun)
      (by rw [hphase]; rfl) (fun _ _ heq => by cases heq; rfl) (hopen (by rw [hphase]; rfl))⟩
  | insert msg tcpQueueSize hphase => exact h.udp_insert hphase hsync rfl
  | notify hphase =>
    exact ⟨[], t, .nil, h.udp_move hsync rfl rfl (.inr rfl) (by rw [hphase]; nofun)
      (by rw [hphase]; rfl) (fun _ _ => nofun) (hopen (by rw [hphase]; rfl))⟩
  | unlockTcp hphase =>
    exact ⟨[], t, .nil, h.udp_move hsync rfl rfl (.inl rfl) (by rw [hphase]; nofun)
      (by rw [hphase]; rfl) (fun _ _ => nofun) (hopen (by rw [hphase]; rfl))⟩
  | unlockMessage hphase =>
    exact ⟨[], t, .nil, h.udp_move hsync rfl rfl (.inl rfl) (by rw [hphase]; nofun)
      (by rw [hphase]; rfl) (fun _ _ => nofun) (hopen (by rw [hphase]; rfl))⟩

/-! ## Runs -/

omit [DecidableEq ι] in
theorem Matches.server_round (h : s.Matches clientAddr t) {r : ServerRound}
    (hdelivers : s.Delivers serverAddr r.recvResult) :
    ∃ t', Transmission.Step clientAddr t (.server r) t' ∧
      (s.afterServer (s.server.startRound r).1 (s.server.startRound r).2).Matches clientAddr t' := by
  refine ⟨t.afterServer (s.server.startRound r).1 (s.server.startRound r).2,
    ⟨h.delivers hdelivers, ?_⟩, ?_⟩
  · show Except.ok (t.afterServer _ _) = _
    rw [h.server]
  · exact {
      synchronised := h.synchronised
      server := rfl
      built := by
        show t.built ++ _ = s.built ++ _
        rw [h.built]
      outcomes := h.outcomes
      network := fun p hp => by
        rcases List.mem_append.mp hp with hp | hp
        · exact List.mem_append_left _ (h.network p hp)
        · exact List.mem_append_right _ hp
      queue := h.queue
      settled := h.settled
      pending := fun i msg hi => by
        obtain ⟨ρ, hsend, hdelivers, hround⟩ := h.pending i msg hi
        exact ⟨ρ, hsend, delivers_mono (fun p hp => List.mem_append_left _ hp) hdelivers, hround⟩
      sized := h.sized
      isOpen := h.isOpen }

theorem Matches.step {u : Deployment ι} {e : Event ι} (h : s.Matches clientAddr t)
    (hstep : Step clientAddr s e u) :
    ∃ rounds t', Run (Transmission.Step clientAddr) t rounds t' ∧ u.Matches clientAddr t' := by
  obtain ⟨hpossible, hnext⟩ := hstep
  cases e with
  | server r =>
    obtain ⟨t', hround, ht'⟩ := h.server_round hpossible
    exact ⟨[_], t', Run.nil.snoc hround, Except.ok.inj hnext ▸ ht'⟩
  | thread e =>
    change (s.threads.step e).map (s.afterThread clientAddr e) = .ok u at hnext
    cases hv : s.threads.step e with
    | error stop => rw [hv] at hnext; cases hnext
    | ok v =>
      rw [hv] at hnext
      have hsync := h.synchronised.step hv
      rw [← Except.ok.inj hnext]
      cases e with
      | udp i r => exact h.udpStep hsync hpossible hv
      | tcp res => exact h.tcpStep hsync hv
  | drop p =>
    rw [← Except.ok.inj hnext]
    exact ⟨[], t, .nil, { h with network := fun q hq => h.network q (List.mem_of_mem_erase hq) }⟩

theorem matches_run {serverSocket clientSocket : Int} {bound connected inProgress : Bool}
    {events : List (Event ι)} (hrun : Run (Step clientAddr)
      (start ι serverSocket clientSocket bound connected inProgress) events s) :
    ∃ rounds t, Run (Transmission.Step clientAddr)
      (Transmission.start serverSocket clientSocket bound connected inProgress) rounds t ∧
      s.Matches clientAddr t :=
  hrun.simulates (fun t s => s.Matches clientAddr t)
    (matches_start clientAddr serverSocket clientSocket bound connected inProgress)
    fun h hstep => h.step hstep

/-! The server has built eleven messages, and a UDP thread that has saved the last one is about to
queue it. -/

def queueingAddr : SockAddr := ⟨afInet, loopbackAddr, 4096⟩

def queueingEvents (pad : Buffer 5) : List (Event Bool) :=
  let ask : ClientRound := ⟨1, true, true, false, .error, pad⟩
  let store : ClientRound :=
    ⟨1, false, false, true, .datagram serverAddr ((makeMessageDiv20 10).toRaw pad).bytes, pad⟩
  let answer : ServerRound :=
    ⟨1, true, .datagram queueingAddr (commandToRaw Client.cmd).bytes, true, true, pad⟩
  List.replicate 3 (.thread (.udp false ask)) ++ List.replicate 11 (.server answer) ++
    List.replicate 2 (.thread (.udp true store))

theorem exists_run_queueing {β : Type*} (pad : Buffer 5) (obs : Deployment Bool → β) {b : β}
    (h : ((queueingEvents pad).foldlM (guard (Possible queueingAddr) (next queueingAddr))
      (start Bool 3 3 true true false)).map obs = .ok b) :
    ∃ s, Run (Step queueingAddr) (start Bool 3 3 true true false) (queueingEvents pad) s ∧
      obs s = b := by
  have hrun := exists_run_of_foldlM (guard (Possible queueingAddr) (next queueingAddr)) _
    (queueingEvents pad) obs h
  rw [ofExcept_guard] at hrun
  exact hrun

/-- Every run of the server, the network and the receiver's threads under their mutexes is matched by
a run of whole rounds: the server has done and built the same, every message that was taken for TCP
had the same fate, nothing is in flight that is not in flight there, and whenever no thread is in the
middle of a round the two clients are the same. -/
theorem refines_rounds {serverSocket clientSocket : Int} {bound connected inProgress : Bool}
    {events : List (Event ι)} (hrun : Run (Step clientAddr)
      (start ι serverSocket clientSocket bound connected inProgress) events s) :
    ∃ rounds t, Run (Transmission.Step clientAddr)
      (Transmission.start serverSocket clientSocket bound connected inProgress) rounds t ∧
      t.server = s.server ∧ t.built = s.built ∧ t.outcomes = s.outcomes ∧
      (∀ p ∈ s.network, p ∈ t.network) ∧
      ((∀ i, (s.threads.udp i).pending = none) → (∀ msg, s.threads.tcp ≠ .removed msg) →
        t.client = s.threads.client) := by
  obtain ⟨rounds, t, hrounds, h⟩ := matches_run hrun
  refine ⟨rounds, t, hrounds, h.server, h.built, h.outcomes, h.network, fun hnone hphase => ?_⟩
  rw [h.settled hnone, (behind_iff hphase).mp h.queue]

theorem refines_rounds_queueing :
    let pad : Buffer 5 := ⟨[0, 0, 0, 0, 0], rfl⟩
    ∃ s, Run (Step queueingAddr) (start Bool 3 3 true true false) (queueingEvents pad) s ∧
      s.threads.udp true = .queueing (makeMessageDiv20 10) ∧
      ∃ rounds t, Run (Transmission.Step queueingAddr) (Transmission.start 3 3 true true false)
        rounds t ∧ t.server = s.server ∧ t.built = s.built := by
  intro pad
  obtain ⟨s, hrun, hphase⟩ := exists_run_queueing pad (fun s => s.threads.udp true)
    (b := .queueing (makeMessageDiv20 10)) (by decide +kernel)
  obtain ⟨rounds, t, hrounds, hserver, hbuilt, -⟩ := refines_rounds hrun
  exact ⟨s, hrun, hphase, rounds, t, hrounds, hserver, hbuilt⟩

omit [DecidableEq ι] in
/-- In the middle of a round of `sendViaTcpSocket` the queue is short of one message. -/
theorem Matches.mem_queue (h : s.Matches clientAddr t) (hvalid : t.client.mContainerTcpQueue.mPimpl.Valid)
    {e : UInt64 × MessageFormat} (he : e ∈ s.threads.queue.mPimpl.contents) :
    e ∈ t.client.mContainerTcpQueue.mPimpl.contents := by
  by_cases hphase : ∃ msg, s.threads.tcp = .removed msg
  · obtain ⟨msg, hphase⟩ := hphase
    have hbehind := h.queue
    rw [hphase] at hbehind
    obtain ⟨index, hempty, hindex, -, hqueue⟩ := hbehind
    obtain ⟨⟨k, v⟩, es, hcons⟩ := List.exists_cons_of_ne_nil (hvalid.contents_ne_nil hempty)
    obtain rfl : k = index :=
      Except.ok.inj ((BstImpl.beginIndex_of_cons hcons).symm.trans hindex)
    rw [hqueue, show (t.client.mContainerTcpQueue.remove k).mPimpl.contents = es from
      hvalid.contents_remove_front hcons] at he
    rw [hcons]
    exact List.mem_cons_of_mem _ he
  · rw [(behind_iff fun msg hmsg => hphase ⟨msg, hmsg⟩).mp h.queue] at he
    exact he

omit [DecidableEq ι] in
/-- In the middle of a round the store is the one that the round is going to leave. -/
theorem Matches.exists_store (h : s.Matches clientAddr t) :
    ∃ rounds t', Run (Transmission.Step clientAddr) t rounds t' ∧
      t'.client.mContainer = s.threads.client.mContainer ∧ t'.built = s.built := by
  by_cases hsettled : ∀ i, (s.threads.udp i).pending = none
  · refine ⟨[], t, .nil, ?_, h.built⟩
    rw [h.settled hsettled]
  · simp only [not_forall] at hsettled
    obtain ⟨i, hi⟩ := hsettled
    obtain ⟨msg, hmsg⟩ := Option.ne_none_iff_exists'.mp hi
    obtain ⟨ρ, -, hdelivers, hround⟩ := h.pending i msg hmsg
    rw [Client.startBeforeTcp_of_queue t.client s.threads.queue ρ] at hround
    have hstore : (t.client.startBeforeTcp ρ).1.mContainer = s.threads.client.mContainer :=
      congrArg (fun p => p.1.mContainer) hround
    have hopen : t.client.mUdpSocket.isOpen = true := by
      rw [← Client.startBeforeTcp_isOpen t.client ρ]
      have hsame : (t.client.startBeforeTcp ρ).1.mUdpSocket = s.threads.client.mUdpSocket :=
        congrArg (fun p => p.1.mUdpSocket) hround
      rw [hsame]
      exact h.isOpen i (UdpPhase.holdsMessage_of_pending hi)
    refine ⟨[.client ρ], t.afterClient clientAddr (t.client.startRound ρ).1 (t.client.startRound ρ).2,
      Run.nil.snoc ⟨hdelivers, rfl⟩, ?_, h.built⟩
    show (t.client.startRound ρ).1.mContainer = _
    rw [Client.startRound_eq hopen, ← hstore]
    cases (t.client.startBeforeTcp ρ).2 with
    | none => rfl
    | some _ => rfl

/-- The rounds that match a run, and those that also finish what the threads are in the middle of. -/
theorem exists_sound (hdistinct : clientAddr ≠ serverAddr) {serverSocket clientSocket : Int}
    {bound connected inProgress : Bool} {events : List (Event ι)} (hrun : Run (Step clientAddr)
      (start ι serverSocket clientSocket bound connected inProgress) events s) :
    (∃ t : Transmission, t.Sound clientAddr ∧ s.Matches clientAddr t) ∧
      ∃ t : Transmission, t.Sound clientAddr ∧ t.built = s.built ∧
        t.client.mContainer = s.threads.client.mContainer := by
  obtain ⟨rounds, t, hrounds, hmatch⟩ := matches_run hrun
  obtain ⟨more, t', hmore, hstore, hbuilt⟩ := hmatch.exists_store
  have h : t.Sound clientAddr := hrounds.invariant (Transmission.Sound clientAddr)
    (Transmission.sound_start clientAddr serverSocket clientSocket bound connected inProgress)
    (Transmission.sound_step hdistinct)
  have h' : t'.Sound clientAddr :=
    hmore.invariant (Transmission.Sound clientAddr) h (Transmission.sound_step hdistinct)
  exact ⟨⟨t, h, hmatch⟩, t', h', hbuilt, hstore⟩

/-- At every moment, also between the critical sections of the threads, the receiver's store agrees
with what the server has built, and so does everything that waits for TCP or was taken from there. -/
theorem store_agrees_always (hdistinct : clientAddr ≠ serverAddr)
    {serverSocket clientSocket : Int} {bound connected inProgress : Bool}
    {events : List (Event ι)} (hrun : Run (Step clientAddr)
      (start ι serverSocket clientSocket bound connected inProgress) events s) :
    (∀ k v, s.threads.client.mContainer.atId k = .ok v →
      k < 20 ∧ v.messageId = k ∧ v.messageData % 20 = k ∧ v ∈ s.built) ∧
      s.threads.client.mContainer.size.toNat ≤ 20 ∧
      (∀ k v, s.threads.queue.atId k = .ok v →
        v.messageId = tcpResendID ∧ v.messageData % 20 = tcpResendID ∧ v ∈ s.built) ∧
      ∀ o ∈ s.outcomes, o.msg.messageId = tcpResendID ∧ o.msg.messageData % 20 = tcpResendID ∧
        o.msg ∈ s.built := by
  obtain ⟨⟨t, h, hmatch⟩, t', h', hbuilt, hstore⟩ := exists_sound hdistinct hrun
  refine ⟨fun k v hk => ?_, ?_, fun k v hk => ?_, fun o ho => ?_⟩
  · rw [← hbuilt]
    exact h'.fed.stored h'.ids (h'.fed.genuine.validStore.atId_ok_iff.mp (hstore ▸ hk))
  · rw [← hstore]
    exact h'.fed.size_le h'.ids
  · obtain ⟨hid, hmem⟩ := h.fed.genuine.queue _
      (hmatch.mem_queue h.fed.genuine.validQueue (hmatch.synchronised.valid.atId_ok_iff.mp hk))
    exact ⟨hid, (h.ids v hmem).symm.trans hid, hmatch.built ▸ hmem⟩
  · rw [← hmatch.built]
    exact h.fed.taken h.ids (hmatch.outcomes ▸ ho)

theorem store_agrees_always_queueing :
    let pad : Buffer 5 := ⟨[0, 0, 0, 0, 0], rfl⟩
    ∃ s, Run (Step queueingAddr) (start Bool 3 3 true true false) (queueingEvents pad) s ∧
      s.threads.udp true = .queueing (makeMessageDiv20 10) ∧
      s.threads.client.mContainer.atId 10 = .ok (makeMessageDiv20 10) ∧
      makeMessageDiv20 10 ∈ s.built := by
  intro pad
  obtain ⟨s, hrun, hobs⟩ := exists_run_queueing pad
    (fun s => (s.threads.udp true, s.threads.client.mContainer.atId 10))
    (b := (.queueing (makeMessageDiv20 10), .ok (makeMessageDiv20 10))) (by decide +kernel)
  rw [Prod.mk.injEq] at hobs
  obtain ⟨hphase, hat⟩ := hobs
  have h := store_agrees_always (by decide) hrun
  exact ⟨s, hrun, hphase, hat, (h.1 10 _ hat).2.2.2⟩

end Udp

end Deployment

end MessageTransmitter
