import MessageTransmitter.Library.Transition
import MessageTransmitter.Receiver.Client

/-!
# Third parties

`recv_bytes` lets `recvfrom` write the sender's address over `servaddr`, whoever the sender is, and
`send_bytes` sends to `servaddr`.  Two runs of the client are compared here, one with all datagrams
and one with the datagrams of the bound server only: where the next command goes, what is stored and
what is queued for TCP.
-/

open Bytes Transition

namespace MessageTransmitter

/-! ## A round, seen from the network -/

/-- The datagram that the system has ready for a round, as its sender and the message in it. -/
def ClientRound.offered (r : ClientRound) : Option (SockAddr × MessageFormat) :=
  match r.readyRecv, r.recvResult with
  | true, .datagram source data =>
      some (source, MessageFormat.ofRaw ((({} : MessageFormat).toRaw r.padding).fill data))
  | _, _ => none

/-- The round without its datagram, unless the datagram is from the server. -/
def ClientRound.fromServer (server : SockAddr) (r : ClientRound) : ClientRound :=
  match r.recvResult with
  | .datagram source _ =>
      if source = server then r else { r with readyRecv := false, recvResult := .error }
  | .error => r

theorem ClientRound.offered_fromServer (server : SockAddr) (r : ClientRound) :
    (r.fromServer server).offered = r.offered.filter fun p => p.1 = server := by
  obtain ⟨selected, readySend, sendAccepted, readyRecv, recvResult, padding⟩ := r
  cases recvResult with
  | error => cases readyRecv <;> rfl
  | datagram source data =>
    by_cases hsource : source = server
    · cases readyRecv <;> simp [fromServer, offered, hsource, Option.filter]
    · cases readyRecv <;> simp [fromServer, offered, hsource, Option.filter]

namespace Client

def selects (c : Client) (r : ClientRound) : Bool :=
  c.mUdpSocket.isOpen && r.selected ≠ -1 && r.selected ≠ 0

/-- Where `sendCommand` sends in this round, if it is called. -/
def commandTo (c : Client) (r : ClientRound) : Option SockAddr :=
  if c.selects r && r.readySend then some c.mUdpSocket.destination else none

def taken (c : Client) (r : ClientRound) : Option (SockAddr × MessageFormat) :=
  if c.selects r && c.mUdpSocket.hasServer then r.offered else none

def accept (c : Client) : Option (SockAddr × MessageFormat) → Client
  | none => c
  | some (source, msg) =>
      ({ c with mUdpSocket := { c.mUdpSocket with servaddr := source } } : Client).receive msg

/-- The message that the round inserts into the queue. -/
def queuedIn (c : Client) (r : ClientRound) : Option MessageFormat :=
  if c.mUdpSocket.isOpen then (c.startBeforeTcp r).2 else none

theorem selects_iff {c : Client} {r : ClientRound} :
    c.selects r = true ↔ c.mUdpSocket.isOpen = true ∧ ¬ r.selected = -1 ∧ ¬ r.selected = 0 := by
  simp [selects, and_assoc]

theorem startRound_of_not_selects {c : Client} {r : ClientRound} (h : c.selects r = false) :
    c.startRound r = (c, none) := by
  rw [← Bool.not_eq_true, selects_iff] at h
  unfold startRound
  split_ifs
  all_goals first | rfl | simp_all

theorem startRound_of_selects {c : Client} {r : ClientRound} (h : c.selects r = true) :
    c.startRound r =
      (if c.mUdpSocket.hasServer && r.readyRecv then c.recvRound r.padding r.recvResult else c,
        if r.readySend then (c.sendCommand cmd r.sendAccepted).2 else none) := by
  obtain ⟨hopen, herror, htimeout⟩ := selects_iff.mp h
  unfold startRound
  rw [hopen, if_neg herror, if_neg htimeout]
  cases c.mUdpSocket.hasServer <;> cases r.readyRecv <;> rfl

theorem queuedIn_of_not_selects {c : Client} {r : ClientRound} (h : c.selects r = false) :
    c.queuedIn r = none := by
  rw [← Bool.not_eq_true, selects_iff] at h
  unfold queuedIn startBeforeTcp
  split_ifs
  all_goals first | rfl | simp_all

theorem queuedIn_of_selects {c : Client} {r : ClientRound} (h : c.selects r = true) :
    c.queuedIn r = if c.mUdpSocket.hasServer && r.readyRecv
      then (c.recvBeforeTcp r.padding r.recvResult).2 else none := by
  obtain ⟨hopen, herror, htimeout⟩ := selects_iff.mp h
  unfold queuedIn startBeforeTcp
  rw [hopen, if_neg herror, if_neg htimeout]
  cases c.mUdpSocket.hasServer <;> cases r.readyRecv <;> rfl

/-- `commandTo` is where the round's command goes when it is accepted. -/
theorem commandTo_eq (c : Client) (r : ClientRound) :
    c.commandTo r = (c.startRound { r with sendAccepted := true }).2.map Datagram.destination := by
  have hsame : c.selects { r with sendAccepted := true } = c.selects r := rfl
  cases hselects : c.selects r with
  | false =>
    rw [startRound_of_not_selects (hsame.trans hselects), commandTo, hselects]
    rfl
  | true =>
    rw [startRound_of_selects (hsame.trans hselects), commandTo, hselects]
    cases r.readySend <;> rfl

/-- A round accepts the datagram that it takes, and queues its message if that is required. -/
theorem startRound_taken {c : Client} (hclient : c.mUdpSocket.isServer = false) (r : ClientRound) :
    (c.startRound r).1 = c.accept (c.taken r) ∧
      c.queuedIn r = ((c.taken r).map Prod.snd).filter sendViaTcpRequired := by
  rw [taken]
  cases hselects : c.selects r with
  | false =>
    rw [startRound_of_not_selects hselects, queuedIn_of_not_selects hselects]
    exact ⟨rfl, rfl⟩
  | true =>
    rw [startRound_of_selects hselects, queuedIn_of_selects hselects, ClientRound.offered]
    cases c.mUdpSocket.hasServer with
    | false => exact ⟨rfl, rfl⟩
    | true =>
      cases r.readyRecv with
      | false => exact ⟨rfl, rfl⟩
      | true =>
        cases r.recvResult with
        | error => exact ⟨rfl, rfl⟩
        | datagram source data =>
          refine ⟨recvRound_datagram hclient r.padding source data, ?_⟩
          simp [recvBeforeTcp, recvMessage, UDPSocket.recvBytes_datagram, Option.filter]

/-- `queuedIn` is what the round inserts. -/
theorem startRound_queue (c : Client) (r : ClientRound) :
    (c.startRound r).1.mContainerTcpQueue = (c.queuedIn r).elim c.mContainerTcpQueue
      (c.mContainerTcpQueue.insert c.mContainerTcpQueue.size) := by
  rw [queuedIn]
  cases hopen : c.mUdpSocket.isOpen with
  | false =>
    rw [startRound, hopen]
    rfl
  | true =>
    have hqueue := startBeforeTcp_queue c r
    rw [startRound_eq hopen r, if_pos rfl]
    cases (c.startBeforeTcp r).2 with
    | none => exact hqueue
    | some msg =>
      rw [queueForTcp, hqueue]
      rfl

theorem selects_fromServer (c : Client) (server : SockAddr) (r : ClientRound) :
    c.selects (r.fromServer server) = c.selects r ∧
      (r.fromServer server).readySend = r.readySend := by
  unfold ClientRound.fromServer
  cases r.recvResult with
  | error => exact ⟨rfl, rfl⟩
  | datagram source data => dsimp only; split <;> exact ⟨rfl, rfl⟩

theorem accept_mUdpSocket (c : Client) (o : Option (SockAddr × MessageFormat)) :
    (c.accept o).mUdpSocket =
      { c.mUdpSocket with servaddr := o.elim c.mUdpSocket.servaddr Prod.fst } := by
  cases o with
  | none => rfl
  | some p => exact receive_mUdpSocket _ p.2

theorem accept_mContainer (c : Client) (o : Option (SockAddr × MessageFormat)) :
    (c.accept o).mContainer = (o.map Prod.snd).elim c.mContainer c.mContainer.add := by
  cases o with
  | none => rfl
  | some p => exact receive_mContainer _ p.2

end Client

/-! ## Two runs -/

structure Observed where
  client : Client
  -- the destination of every `sendCommand`
  commands : List SockAddr := []
  -- the messages inserted into `m_containerTcpQueue`
  inserted : List MessageFormat := []

namespace Observed

def step (s : Observed) : Client.Event → Except Fault Observed
  | .udp r => .ok {
      client := (s.client.startRound r).1
      commands := s.commands ++ (s.client.commandTo r).toList
      inserted := s.inserted ++ (s.client.queuedIn r).toList }
  | .tcp res =>
      match s.client.step (.tcp res) with
      | .ok client => .ok { s with client := client }
      | .error f => .error f

abbrev Step : Observed → Client.Event → Observed → Prop := ofExcept step

/-- A client whose UDP socket is bound to a server address. -/
def start (socket : Int) (address : UInt32) (port : UInt16) (connected inProgress : Bool) :
    Observed where
  client :=
    { mUdpSocket :=
        ({ mSocketType := .client, mSocket := socket } : UDPSocket).bind address port true
      mTcpSocket := ({} : TCPSocket).connect connected inProgress }

def fromServer (server : SockAddr) : Client.Event → Client.Event
  | .udp r => .udp (r.fromServer server)
  | .tcp res => .tcp res

/-- The two runs have sent to the same addresses, store the same messages and have queued the same
messages for TCP. -/
structure Same (s t : Observed) : Prop where
  commands : s.commands = t.commands
  stored : s.client.mContainer.mPimpl.SameMapping t.client.mContainer.mPimpl
  inserted : s.inserted = t.inserted

/-- Receiving `msg` would change neither the store nor the queue. -/
def Harmless (c : Client) (msg : MessageFormat) : Prop :=
  c.mContainer.contains msg.messageId = true ∧ Client.sendViaTcpRequired msg = false

/-- A round sends to the server, takes the server's datagram and no other, or one that would change
nothing. -/
def Steady (server : SockAddr) (s : Observed) : Client.Event → Prop
  | .udp r => s.client.selects r = true →
      (r.readySend = true → s.client.mUdpSocket.servaddr = server) ∧
        ∀ source msg, r.offered = some (source, msg) →
          s.client.mUdpSocket.hasServer = (decide (source = server) && UDPSocket.isValid server) ∨
            Harmless s.client msg
  | .tcp _ => True

/-- What the datagrams that were taken leave behind, read off the rounds alone: the source of the
last one, at first the server, and the ids of their messages. -/
structure Heard where
  last : SockAddr
  ids : List UInt64 := []

namespace Heard

/-- A datagram is taken in any round past `select`, unless the last one came from an address that
`isValid` refuses. -/
def takes (h : Heard) (r : ClientRound) : Option (SockAddr × MessageFormat) :=
  if r.selected ≠ -1 ∧ r.selected ≠ 0 ∧ UDPSocket.isValid h.last = true then r.offered else none

def after (h : Heard) : Client.Event → Heard
  | .udp r => (h.takes r).elim h fun p => ⟨p.1, p.2.messageId :: h.ids⟩
  | .tcp _ => h

/-- When a command is due, the last datagram came from the server.  A third party's datagram is
offered where none is taken, or it repeats an id and is not to be forwarded; and so does one of the
server's, if that address is valid, where none is taken. -/
def Admits (server : SockAddr) (h : Heard) (r : ClientRound) : Prop :=
  r.selected ≠ -1 → r.selected ≠ 0 →
    (r.readySend = true → h.last = server) ∧
      ∀ source msg, r.offered = some (source, msg) →
        UDPSocket.isValid h.last = (decide (source = server) && UDPSocket.isValid server) ∨
          msg.messageId ∈ h.ids ∧ Client.sendViaTcpRequired msg = false

end Heard

def heard (server : SockAddr) (events : List Client.Event) : Heard :=
  events.foldl Heard.after { last := server }

/-- What the datagrams before a round leave behind admits the round. -/
def Undisturbed (server : SockAddr) (events : List Client.Event) : Prop :=
  ∀ pre r, pre ++ [.udp r] <+: events → (heard server pre).Admits server r

/-! ## One run -/

/-- The socket is a client's, still differs from `sock` in the address it sends to only, and both
containers are well-formed stores. -/
structure Bound (sock : UDPSocket) (s : Observed) : Prop where
  client : sock.mSocketType = .client
  socket : s.client.mUdpSocket = { sock with servaddr := s.client.mUdpSocket.servaddr }
  store : s.client.mContainer.mPimpl.Valid
  queue : s.client.mContainerTcpQueue.mPimpl.Valid

theorem Bound.isServer {sock : UDPSocket} {s : Observed} (h : s.Bound sock) :
    s.client.mUdpSocket.isServer = false := by
  rw [h.socket, UDPSocket.isServer, h.client]
  rfl

theorem Bound.isOpen {sock : UDPSocket} {s : Observed} (h : s.Bound sock) :
    s.client.mUdpSocket.isOpen = sock.isOpen := by
  rw [h.socket]
  rfl

theorem accept_store {c : Client} (h : c.mContainer.mPimpl.Valid)
    (o : Option (SockAddr × MessageFormat)) : (c.accept o).mContainer.mPimpl.Valid := by
  rw [Client.accept_mContainer]
  cases o with
  | none => exact h
  | some p => exact h.insert _ p.2

theorem step_tcp {s : Observed} {d : Client} {res : StreamResult}
    (h : s.client.step (.tcp res) = .ok d) : s.step (.tcp res) = .ok { s with client := d } := by
  rw [step, h]

theorem Bound.exists_step {sock : UDPSocket} {s : Observed} (h : s.Bound sock)
    (e : Client.Event) : ∃ t, s.step e = .ok t ∧ t.Bound sock := by
  obtain ⟨d, hd, hqueue⟩ := Client.exists_step h.queue e
  cases e with
  | udp r =>
    obtain rfl : (s.client.startRound r).1 = d := Except.ok.inj hd
    refine ⟨_, rfl, h.client, ?_, ?_, hqueue⟩
    · show (s.client.startRound r).1.mUdpSocket =
        { sock with servaddr := (s.client.startRound r).1.mUdpSocket.servaddr }
      rw [(Client.startRound_taken h.isServer _).1, Client.accept_mUdpSocket, h.socket]
    · show (s.client.startRound r).1.mContainer.mPimpl.Valid
      rw [(Client.startRound_taken h.isServer _).1]
      exact accept_store h.store _
  | tcp res =>
    obtain ⟨queue, rfl⟩ := Client.step_tcp hd
    exact ⟨_, step_tcp hd, h.client, h.socket, h.store, hqueue⟩

theorem Bound.step {sock : UDPSocket} {s t : Observed} {e : Client.Event} (h : s.Bound sock)
    (hstep : Step s e t) : t.Bound sock := by
  obtain ⟨u, hu, hbound⟩ := h.exists_step e
  rwa [Except.ok.inj (hstep.symm.trans hu)]

/-- Without third parties the socket stays bound to the server. -/
theorem servaddr_fromServer {sock : UDPSocket} {s t : Observed} {e : Client.Event}
    (h : s.Bound sock) (hsock : s.client.mUdpSocket = sock)
    (hstep : Step s (fromServer sock.servaddr e) t) : t.client.mUdpSocket = sock := by
  cases e with
  | udp r =>
    rw [← Except.ok.inj hstep]
    show (s.client.startRound (r.fromServer sock.servaddr)).1.mUdpSocket = sock
    rw [(Client.startRound_taken h.isServer _).1, Client.accept_mUdpSocket, hsock, Client.taken,
      ClientRound.offered_fromServer]
    -- what is taken is from the server itself
    split
    · cases r.offered with
      | none => rfl
      | some p =>
        by_cases hp : p.1 = sock.servaddr
        · simp [Option.filter, hp]
        · simp [Option.filter, hp]
    · rfl
  | tcp res =>
    obtain ⟨d, hd, -⟩ := Client.exists_step h.queue (.tcp res)
    obtain ⟨queue, rfl⟩ := Client.step_tcp hd
    rw [← Except.ok.inj ((step_tcp hd).symm.trans hstep)]
    exact hsock

/-! ## The two runs compared -/

/-- Of two like stores one or both receive a message: they stay alike when both receive it or none,
or when it changes nothing. -/
theorem received_iff {c d : Container} (hc : c.mPimpl.Valid) (hd : d.mPimpl.Valid)
    (hsame : c.mPimpl.SameMapping d.mPimpl) (msg : MessageFormat) (x y : Bool) :
    (((if x then some msg else none).elim c c.add).mPimpl.SameMapping
        ((if y then some msg else none).elim d d.add).mPimpl ∧
      ((if x then some msg else none).filter Client.sendViaTcpRequired).toList =
        ((if y then some msg else none).filter Client.sendViaTcpRequired).toList) ↔
      x = y ∨ (c.contains msg.messageId = true ∧ Client.sendViaTcpRequired msg = false) := by
  have hleft : (c.add msg).mPimpl.SameMapping d.mPimpl ↔ c.contains msg.messageId = true :=
    hsame.insert_left_iff hc _ msg
  have hright : c.mPimpl.SameMapping (d.add msg).mPimpl ↔ c.contains msg.messageId = true := by
    have hd' : (d.add msg).mPimpl.SameMapping c.mPimpl ↔ d.contains msg.messageId = true :=
      hsame.symm.insert_left_iff hd _ msg
    rw [Container.contains, (hsame msg.messageId).1]
    exact ⟨fun h => hd'.mp h.symm, fun h => (hd'.mpr h).symm⟩
  have hboth : (c.add msg).mPimpl.SameMapping (d.add msg).mPimpl := hsame.insert hc hd _ msg
  cases x with
  | false =>
    cases y with
    | false => simp [hsame]
    | true => simp [Option.filter, hright]
  | true =>
    cases y with
    | false => simp [Option.filter, hleft]
    | true => simp [hboth]

theorem same_iff {s t : Observed} : Same s t ↔ s.commands = t.commands ∧
    s.client.mContainer.mPimpl.SameMapping t.client.mContainer.mPimpl ∧ s.inserted = t.inserted :=
  ⟨fun h => ⟨h.commands, h.stored, h.inserted⟩, fun h => ⟨h.1, h.2.1, h.2.2⟩⟩

theorem selects_eq {sock : UDPSocket} {s t : Observed} (hs : s.Bound sock)
    (hsock : t.client.mUdpSocket = sock) (server : SockAddr) (r : ClientRound) :
    t.client.selects (r.fromServer server) = s.client.selects r := by
  rw [(Client.selects_fromServer t.client server r).1, Client.selects, Client.selects, hs.socket,
    hsock]
  rfl

theorem commandTo_eq {sock : UDPSocket} {s : Observed} (h : s.Bound sock) (r : ClientRound) :
    s.client.commandTo r =
      if s.client.selects r && r.readySend then some s.client.mUdpSocket.servaddr else none := by
  rw [Client.commandTo, UDPSocket.destination, h.isServer]
  rfl

theorem same_udp_iff {sock : UDPSocket} {s t : Observed} (hs : s.Bound sock) (ht : t.Bound sock)
    (hsock : t.client.mUdpSocket = sock) (h : Same s t) {s' t' : Observed} {r : ClientRound}
    (hstep : Step s (.udp r) s') (hstep' : Step t (.udp (r.fromServer sock.servaddr)) t') :
    Same s' t' ↔ s.Steady sock.servaddr (.udp r) := by
  have hselects := selects_eq hs hsock sock.servaddr r
  have hready := (Client.selects_fromServer t.client sock.servaddr r).2
  rw [← Except.ok.inj hstep, ← Except.ok.inj hstep', same_iff]
  simp only [Client.startRound_taken hs.isServer, Client.startRound_taken ht.isServer,
    Client.accept_mContainer, commandTo_eq hs, commandTo_eq ht, hselects, hready,
    Client.taken, ClientRound.offered_fromServer, h.commands, h.inserted, List.append_cancel_left_eq]
  have hserver : t.client.mUdpSocket.hasServer = UDPSocket.isValid sock.servaddr := by
    rw [hsock, UDPSocket.hasServer]
  rw [hserver, hsock, Steady]
  cases s.client.selects r with
  | false => simp [h.stored]
  | true =>
    simp only [Bool.true_and, true_implies]
    apply and_congr
    · cases r.readySend <;> simp
    · cases r.offered with
      | none => simp [h.stored]
      | some p =>
        obtain ⟨source, msg⟩ := p
        have htaken : ∀ x : Bool, (if x = true then some (source, msg) else none).map Prod.snd =
            if x then some msg else none := fun x => by cases x <;> rfl
        have hfilter : (if UDPSocket.isValid sock.servaddr = true then
              (some (source, msg)).filter fun p => decide (p.1 = sock.servaddr) else none) =
            if (decide (source = sock.servaddr) && UDPSocket.isValid sock.servaddr) = true
              then some (source, msg) else none := by
          cases UDPSocket.isValid sock.servaddr <;> simp [Option.filter]
        rw [hfilter, htaken, htaken]
        refine (received_iff hs.store ht.store h.stored msg _ _).trans ?_
        simp only [Option.some.injEq, Prod.mk.injEq, and_imp, forall_eq', forall_apply_eq_imp_iff,
          Harmless]

theorem same_tcp {sock : UDPSocket} {s t : Observed} (hs : s.Bound sock) {res : StreamResult}
    (hstep : Step s (.tcp res) t) :
    t.commands = s.commands ∧ t.client.mContainer = s.client.mContainer ∧
      t.inserted = s.inserted := by
  obtain ⟨d, hd, -⟩ := Client.exists_step hs.queue (.tcp res)
  obtain ⟨queue, rfl⟩ := Client.step_tcp hd
  rw [← Except.ok.inj ((step_tcp hd).symm.trans hstep)]
  exact ⟨rfl, rfl, rfl⟩

/-- A step keeps the two runs alike exactly when it is steady. -/
theorem same_step_iff {sock : UDPSocket} {s t : Observed} (hs : s.Bound sock) (ht : t.Bound sock)
    (hsock : t.client.mUdpSocket = sock) (h : Same s t) {s' t' : Observed} {e : Client.Event}
    (hstep : Step s e s') (hstep' : Step t (fromServer sock.servaddr e) t') :
    Same s' t' ↔ s.Steady sock.servaddr e := by
  cases e with
  | udp r => exact same_udp_iff hs ht hsock h hstep hstep'
  | tcp res =>
    obtain ⟨hcommands, hstored, hinserted⟩ := same_tcp hs hstep
    obtain ⟨hcommands', hstored', hinserted'⟩ := same_tcp ht hstep'
    rw [same_iff, hcommands, hcommands', hstored, hstored', hinserted, hinserted', ← same_iff]
    exact iff_of_true h trivial

/-! ## Deleting third parties from a run -/

/-- At no time in the run has it made a difference which datagrams third parties sent. -/
def Unaffected (server : SockAddr) (first : Observed) (events : List Client.Event) : Prop :=
  ∀ pre, pre <+: events → ∀ s t, Run Step first pre s →
    Run Step first (pre.map (fromServer server)) t → Same s t

theorem unaffected_snoc_iff {server : SockAddr} {first : Observed} {events : List Client.Event}
    {e : Client.Event} {s t : Observed} (hs : Run Step first (events ++ [e]) s)
    (ht : Run Step first ((events ++ [e]).map (fromServer server)) t) :
    Unaffected server first (events ++ [e]) ↔ Unaffected server first events ∧ Same s t := by
  apply Iff.intro
  · intro h
    exact ⟨fun pre hpre => h pre (hpre.trans (List.prefix_append _ _)),
      h _ (List.prefix_refl _) s t hs ht⟩
  · rintro ⟨h, hsame⟩ pre hpre u v hu hv
    rcases List.prefix_concat_iff.mp hpre with rfl | hpre
    · rwa [hu.deterministic hs, hv.deterministic ht]
    · exact h pre hpre u v hu hv

theorem Bound.unaffected_iff {sock : UDPSocket} {first : Observed} (hfirst : first.Bound sock)
    (hsock : first.client.mUdpSocket = sock) (events : List Client.Event) :
    ∃ s t, (Run Step first events s ∧ s.Bound sock) ∧
      (Run Step first (events.map (fromServer sock.servaddr)) t ∧ t.Bound sock ∧
        t.client.mUdpSocket = sock) ∧
      (Unaffected sock.servaddr first events ↔
        Run (Guarded (Steady sock.servaddr) Step) first events s) := by
  induction events using List.reverseRecOn with
  | nil =>
    refine ⟨first, first, ⟨.nil, hfirst⟩, ⟨.nil, hfirst, hsock⟩, iff_of_true ?_ .nil⟩
    intro pre hpre s t hs ht
    obtain rfl := List.prefix_nil.mp hpre
    obtain rfl := run_nil_iff.mp hs
    obtain rfl := run_nil_iff.mp ht
    exact ⟨rfl, fun _ => ⟨rfl, fun _ => rfl⟩, rfl⟩
  | append_singleton events e ih =>
    obtain ⟨s, t, ⟨hruns, hs⟩, ⟨hrunt, ht, hbound⟩, hiff⟩ := ih
    obtain ⟨s', hsteps, hs'⟩ := hs.exists_step e
    obtain ⟨t', hstept, ht'⟩ := ht.exists_step (fromServer sock.servaddr e)
    have hruns' : Run Step first (events ++ [e]) s' := hruns.snoc hsteps
    have hrunt' : Run Step first ((events ++ [e]).map (fromServer sock.servaddr)) t' := by
      rw [List.map_append]
      exact hrunt.snoc hstept
    refine ⟨s', t', ⟨hruns', hs'⟩, ⟨hrunt', ht', servaddr_fromServer ht hbound hstept⟩, ?_⟩
    rw [unaffected_snoc_iff hruns' hrunt', run_snoc_iff]
    apply Iff.intro
    · rintro ⟨hunaffected, hsame⟩
      have hst : Same s t := hunaffected _ (List.prefix_refl _) s t hruns hrunt
      exact ⟨s, hiff.mp hunaffected, (same_step_iff hs ht hbound hst hsteps hstept).mp hsame, hsteps⟩
    · rintro ⟨u, hguarded, hsteady, -⟩
      obtain rfl : u = s := (run_guarded_iff.mp hguarded).1.deterministic hruns
      have hunaffected := hiff.mpr hguarded
      have hst : Same u t := hunaffected _ (List.prefix_refl _) u t hruns hrunt
      exact ⟨hunaffected, (same_step_iff hs ht hbound hst hsteps hstept).mpr hsteady⟩

/-! ## The datagrams of a run -/

theorem heard_snoc (server : SockAddr) (events : List Client.Event) (e : Client.Event) :
    heard server (events ++ [e]) = (heard server events).after e := by
  rw [heard, List.foldl_append]
  rfl

/-- The client and the datagrams of the run so far agree on where the last one came from and on the
ids that were received. -/
structure Follows (sock : UDPSocket) (s : Observed) (h : Heard) : Prop where
  bound : s.Bound sock
  servaddr : s.client.mUdpSocket.servaddr = h.last
  ids : ∀ k, s.client.mContainer.contains k = true ↔ k ∈ h.ids

theorem Follows.selects_iff {sock : UDPSocket} {s : Observed} {h : Heard} (hs : Follows sock s h)
    (hopen : sock.isOpen = true) (r : ClientRound) :
    s.client.selects r = true ↔ r.selected ≠ -1 ∧ r.selected ≠ 0 := by
  rw [Client.selects_iff, hs.bound.isOpen, hopen]
  exact and_iff_right rfl

theorem Follows.taken {sock : UDPSocket} {s : Observed} {h : Heard} (hs : Follows sock s h)
    (hopen : sock.isOpen = true) (r : ClientRound) : s.client.taken r = h.takes r := by
  rw [Client.taken, Heard.takes, UDPSocket.hasServer, hs.servaddr]
  apply if_congr _ rfl rfl
  rw [Bool.and_eq_true, hs.selects_iff hopen, and_assoc]

theorem Follows.step {sock : UDPSocket} {s t : Observed} {h : Heard} (hs : Follows sock s h)
    (hopen : sock.isOpen = true) {e : Client.Event} (hstep : Step s e t) :
    Follows sock t (h.after e) := by
  have hbound := hs.bound.step hstep
  cases e with
  | udp r =>
    obtain rfl : _ = t := Except.ok.inj hstep
    have hround := (Client.startRound_taken hs.bound.isServer r).1
    rw [hs.taken hopen] at hround
    refine ⟨hbound, ?_, fun k => ?_⟩
    · show (s.client.startRound r).1.mUdpSocket.servaddr = _
      rw [hround, Client.accept_mUdpSocket, Heard.after]
      cases h.takes r with
      | none => exact hs.servaddr
      | some p => rfl
    · show (s.client.startRound r).1.mContainer.contains k = true ↔ _
      rw [hround, Client.accept_mContainer, Heard.after]
      cases h.takes r with
      | none => exact hs.ids k
      | some p =>
        have hadd : (s.client.mContainer.add p.2).contains k = true ↔
            k = p.2.messageId ∨ s.client.mContainer.contains k = true :=
          hs.bound.store.contains_insert p.2.messageId p.2 k
        show (s.client.mContainer.add p.2).contains k = true ↔ k ∈ p.2.messageId :: h.ids
        rw [hadd, hs.ids, List.mem_cons]
  | tcp res =>
    obtain ⟨d, hd, -⟩ := Client.exists_step hs.bound.queue (.tcp res)
    obtain ⟨queue, rfl⟩ := Client.step_tcp hd
    obtain rfl := Except.ok.inj ((step_tcp hd).symm.trans hstep)
    exact ⟨hbound, hs.servaddr, hs.ids⟩

theorem follows_run {sock : UDPSocket} {first s : Observed}
    (hfirst : Follows sock first { last := sock.servaddr }) (hopen : sock.isOpen = true)
    {events : List Client.Event} (hrun : Run Step first events s) :
    Follows sock s (heard sock.servaddr events) := by
  induction events using List.reverseRecOn generalizing s with
  | nil =>
    obtain rfl := run_nil_iff.mp hrun
    exact hfirst
  | append_singleton events e ih =>
    obtain ⟨u, hu, hlast⟩ := run_snoc_iff.mp hrun
    rw [heard_snoc]
    exact (ih hu).step hopen hlast

theorem Follows.steady_udp_iff {sock : UDPSocket} {s : Observed} {h : Heard}
    (hs : Follows sock s h) (hopen : sock.isOpen = true) (server : SockAddr) (r : ClientRound) :
    s.Steady server (.udp r) ↔ h.Admits server r := by
  rw [Steady, Heard.Admits, hs.selects_iff hopen, and_imp, UDPSocket.hasServer, hs.servaddr]
  simp only [Harmless, hs.ids]

/-- The steps of a run are steady exactly when its schedule is undisturbed. -/
theorem steady_iff_undisturbed {sock : UDPSocket} {first s : Observed}
    (hfirst : Follows sock first { last := sock.servaddr }) (hopen : sock.isOpen = true)
    {events : List Client.Event} (hrun : Run Step first events s) :
    Run (Guarded (Steady sock.servaddr) Step) first events s ↔
      Undisturbed sock.servaddr events := by
  rw [run_guarded_iff]
  apply Iff.intro
  · rintro ⟨-, hsteady⟩ pre r hpre
    obtain ⟨more, hmore⟩ := hpre
    have hsplit : Run Step first (pre ++ ([.udp r] ++ more)) s := by
      rw [← List.append_assoc, hmore]
      exact hrun
    obtain ⟨u, hu, -⟩ := run_append_iff.mp hsplit
    exact ((follows_run hfirst hopen hu).steady_udp_iff hopen _ r).mp
      (hsteady pre (.udp r) ⟨more, hmore⟩ u hu)
  · intro hundisturbed
    refine ⟨hrun, fun pre e hpre u hu => ?_⟩
    cases e with
    | udp r =>
      exact ((follows_run hfirst hopen hu).steady_udp_iff hopen _ r).mpr (hundisturbed pre r hpre)
    | tcp res => trivial

/-- Nothing happens at a socket that is not open. -/
theorem Bound.steady_of_closed {sock : UDPSocket} {s : Observed} (h : s.Bound sock)
    (hclosed : sock.isOpen = false) (server : SockAddr) (e : Client.Event) :
    s.Steady server e := by
  cases e with
  | udp r =>
    intro hselects
    rw [Client.selects_iff, h.isOpen, hclosed] at hselects
    exact absurd hselects.1 Bool.false_ne_true
  | tcp res => trivial

theorem start_follows (socket : Int) (address : UInt32) (port : UInt16)
    (connected inProgress : Bool) :
    let first := start socket address port connected inProgress
    Follows first.client.mUdpSocket first { last := UDPSocket.bindAddr address port } where
  bound := ⟨rfl, rfl, BstImpl.valid_empty, BstImpl.valid_empty⟩
  servaddr := rfl
  ids _ := iff_of_false Bool.false_ne_true List.not_mem_nil

theorem start_isOpen (socket : Int) (address : UInt32) (port : UInt16)
    (connected inProgress : Bool) :
    (start socket address port connected inProgress).client.mUdpSocket.isOpen =
      decide (0 < socket) := by
  show (decide (0 < socket) && true) = decide (0 < socket)
  rw [Bool.and_true]

/-- Third parties make no difference to any part of a run exactly when the socket is closed or the
schedule is undisturbed. -/
theorem unaffected_iff_undisturbed (socket : Int) (address : UInt32) (port : UInt16)
    (connected inProgress : Bool) (events : List Client.Event) :
    ∃ s, Run Step (start socket address port connected inProgress) events s ∧
      (Unaffected (UDPSocket.bindAddr address port)
          (start socket address port connected inProgress) events ↔
        (0 < socket → Undisturbed (UDPSocket.bindAddr address port) events)) := by
  have hfirst := start_follows socket address port connected inProgress
  obtain ⟨s, -, ⟨hrun, -⟩, -, hiff⟩ := hfirst.bound.unaffected_iff rfl events
  have hopen := start_isOpen socket address port connected inProgress
  refine ⟨s, hrun, hiff.trans ?_⟩
  by_cases hsocket : 0 < socket
  · rw [forall_prop_of_true hsocket]
    exact steady_iff_undisturbed hfirst (hopen.trans (decide_eq_true hsocket)) hrun
  · apply iff_of_true
    · rw [run_guarded_iff]
      refine ⟨hrun, fun pre e _ u hu => ?_⟩
      have hu' : u.Bound _ := hu.invariant (Bound _) hfirst.bound Bound.step
      exact hu'.steady_of_closed (hopen.trans (decide_eq_false hsocket)) _ e
    · exact fun h => absurd h hsocket

/-- A message from elsewhere is stored and queued, and the next command goes where it came from. -/
theorem unaffected_broken :
    let server := UDPSocket.bindAddr loopbackAddr recvUdpPort
    let other : SockAddr := ⟨afInet, 0x0200a8c0, htons 9000⟩
    let pad : Buffer 5 := ⟨[0, 0, 0, 0, 0], rfl⟩
    let first := start 3 loopbackAddr recvUdpPort true false
    let events : List Client.Event :=
      [.udp ⟨1, true, true, true, .datagram other ((makeMessageWithId 10).toRaw pad).bytes, pad⟩,
        .udp ⟨1, true, true, false, .error, pad⟩]
    ∃ s t, Run Step first events s ∧ Run Step first (events.map (fromServer server)) t ∧
      s.commands = [server, other] ∧ t.commands = [server, server] ∧
      ¬ s.client.mContainer.mPimpl.SameMapping t.client.mContainer.mPimpl ∧
      s.inserted ≠ t.inserted := by
  intro server other pad first events
  obtain ⟨s, hs, hsResult⟩ := exists_run_of_foldlM step first events
    (fun s => (s.commands, s.client.mContainer.contains 10, s.inserted.length))
    (b := ([server, other], true, 1)) (by decide +kernel)
  obtain ⟨t, ht, htResult⟩ := exists_run_of_foldlM step first (events.map (fromServer server))
    (fun t => (t.commands, t.client.mContainer.contains 10, t.inserted.length))
    (b := ([server, server], false, 0)) (by decide +kernel)
  simp only [Prod.mk.injEq] at hsResult htResult
  obtain ⟨hcommands, hcontains, hinserted⟩ := hsResult
  obtain ⟨hcommands', hcontains', hinserted'⟩ := htResult
  refine ⟨s, t, hs, ht, hcommands, hcommands', fun hsame => ?_, fun heq => ?_⟩
  · have hstored : s.client.mContainer.contains 10 = t.client.mContainer.contains 10 := (hsame 10).1
    rw [hcontains, hcontains'] at hstored
    exact absurd hstored (by decide)
  · rw [heq, hinserted'] at hinserted
    exact absurd hinserted (by decide)

end Observed

end MessageTransmitter
