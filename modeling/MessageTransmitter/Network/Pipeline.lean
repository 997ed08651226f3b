import MessageTransmitter.Common.TcpServer
import MessageTransmitter.Network.Transmission

/-!
# From the server to the TCP server

The whole way of a message: the server builds it, the network may lose, repeat or reorder its
datagrams, the client queues it and sends it on over TCP, and `tcp_server::start_` reports it.
-/

open Bytes Transition

namespace MessageTransmitter

/-- Both programs over UDP, and the TCP connection from the client to `start_`. -/
structure Pipeline where
  transmission : Transmission
  link : TcpLink := {}

namespace Pipeline

inductive Event where
  | server (r : ServerRound)
  | client (r : ClientRound)
  | drop (p : Packet)
  -- a round of `sendViaTcpSocket`, with the padding of its `msg`
  | tcp (padding : Buffer 5) (res : StreamResult)
  -- a round of `start_`
  | recv (padding : Buffer 5) (res : StreamResult)

def Possible (clientAddr : SockAddr) (p : Pipeline) : Event → Prop
  | .server r => p.transmission.Possible clientAddr (.server r)
  | .client r => p.transmission.Possible clientAddr (.client r)
  | .drop _ => True
  -- what the kernel answers does not depend on the message
  | .tcp padding res => p.transmission.client.mTcpSocket.connected = true →
      p.link.Possible (.send {} padding res)
  | .recv padding res => p.link.Possible (.recv padding res)

instance instDecidablePossible (clientAddr : SockAddr) (p : Pipeline) :
    DecidablePred (p.Possible clientAddr)
  | .server r => inferInstanceAs (Decidable (p.transmission.Possible clientAddr (.server r)))
  | .client r => inferInstanceAs (Decidable (p.transmission.Possible clientAddr (.client r)))
  | .drop _ => isTrue trivial
  | .tcp padding res => inferInstanceAs (Decidable
      (p.transmission.client.mTcpSocket.connected = true → p.link.Possible (.send {} padding res)))
  | .recv padding res => inferInstanceAs (Decidable (p.link.Possible (.recv padding res)))

/-- `sendBytes` is called only on a socket that counts as connected. -/
def afterTcp (p : Pipeline) (padding : Buffer 5) (res : StreamResult) (client : Client)
    (o : SendOutcome) : Pipeline where
  transmission := p.transmission.afterTcp client o
  link := if client.mTcpSocket.connected then p.link.next (.send o.msg padding res) else p.link

def next (clientAddr : SockAddr) (p : Pipeline) : Event → Except Fault Pipeline
  | .server r => (p.transmission.next clientAddr (.server r)).map fun t => { p with transmission := t }
  | .client r => (p.transmission.next clientAddr (.client r)).map fun t => { p with transmission := t }
  | .drop q => (p.transmission.next clientAddr (.drop q)).map fun t => { p with transmission := t }
  | .tcp padding res =>
      if p.transmission.client.mContainerTcpQueue.empty then .ok p
      else (p.transmission.client.sendRound res).map fun c => p.afterTcp padding res c.1 c.2
  | .recv padding res => .ok { p with link := p.link.next (.recv padding res) }

abbrev Step (clientAddr : SockAddr) : Pipeline → Event → Pipeline → Prop :=
  Guarded (Possible clientAddr) (ofExcept (next clientAddr))

def start (serverSocket clientSocket : Int) (bound connected inProgress : Bool) : Pipeline where
  transmission := Transmission.start serverSocket clientSocket bound connected inProgress

/-- The kernel moved a whole message or nothing. -/
def Whole (_ : Pipeline) : Event → Prop
  | .tcp _ (.count n) => n = messageFormatSize
  | .recv _ (.count k) => k = messageFormatSize
  | _ => True

instance instDecidableWhole (p : Pipeline) : DecidablePred p.Whole
  | .server _ => isTrue trivial
  | .client _ => isTrue trivial
  | .drop _ => isTrue trivial
  | .tcp _ .error => isTrue trivial
  | .tcp _ (.count _) => inferInstanceAs (Decidable (_ = _))
  | .recv _ .error => isTrue trivial
  | .recv _ (.count _) => inferInstanceAs (Decidable (_ = _))

/-! ## The two halves -/

section Halves

variable {clientAddr : SockAddr} {p q : Pipeline} {e : Event}

/-- Everything that a step can be: one of the two programs over UDP, a round of `sendViaTcpSocket`
with a message in the queue, or a round of `start_`. -/
inductive Move (clientAddr : SockAddr) (p : Pipeline) : Event → Pipeline → Prop
  | udp {e : Event} (e' : Transmission.Event) (t : Transmission)
      (hstep : Transmission.Step clientAddr p.transmission e' t)
      (houtcomes : t.outcomes = p.transmission.outcomes) :
      Move clientAddr p e { p with transmission := t }
  | tcp (padding : Buffer 5) (res : StreamResult) (client : Client) (o : SendOutcome)
      (hempty : p.transmission.client.mContainerTcpQueue.empty = false)
      (hround : p.transmission.client.sendRound res = .ok (client, o))
      (hpossible : p.transmission.client.mTcpSocket.connected = true →
        p.link.Possible (.send {} padding res)) :
      Move clientAddr p (.tcp padding res) (p.afterTcp padding res client o)
  | idle {e : Event} : Move clientAddr p e p
  | recv (padding : Buffer 5) (res : StreamResult)
      (hpossible : p.link.Possible (.recv padding res)) :
      Move clientAddr p (.recv padding res) { p with link := p.link.next (.recv padding res) }

theorem move_of_step (h : Step clientAddr p e q) : Move clientAddr p e q := by
  obtain ⟨hpossible, hnext⟩ := h
  cases e with
  | server r =>
    rw [← Except.ok.inj hnext]
    exact .udp (.server r) _ ⟨hpossible, rfl⟩ rfl
  | client r =>
    rw [← Except.ok.inj hnext]
    exact .udp (.client r) _ ⟨hpossible, rfl⟩ rfl
  | drop packet =>
    rw [← Except.ok.inj hnext]
    exact .udp (.drop packet) _ ⟨trivial, rfl⟩ rfl
  | tcp padding res =>
    change (if p.transmission.client.mContainerTcpQueue.empty then .ok p
      else (p.transmission.client.sendRound res).map fun c => p.afterTcp padding res c.1 c.2) = .ok q
      at hnext
    cases hempty : p.transmission.client.mContainerTcpQueue.empty with
    | true =>
      rw [hempty] at hnext
      exact Except.ok.inj hnext ▸ .idle
    | false =>
      rw [hempty] at hnext
      cases hround : p.transmission.client.sendRound res with
      | error f => rw [hround] at hnext; cases hnext
      | ok c =>
        rw [hround] at hnext
        exact Except.ok.inj hnext ▸ .tcp padding res c.1 c.2 hempty hround hpossible
  | recv padding res => exact Except.ok.inj hnext ▸ .recv padding res hpossible

theorem transmission_step (h : Step clientAddr p e q) :
    ∃ events, Run (Transmission.Step clientAddr) p.transmission events q.transmission := by
  cases move_of_step h with
  | udp e' t hstep _ => exact ⟨[e'], Run.nil.snoc hstep⟩
  | tcp padding res client o hempty hround _ =>
    refine ⟨[.tcp res], Run.nil.snoc ⟨trivial, ?_⟩⟩
    show (if p.transmission.client.mContainerTcpQueue.empty then .ok p.transmission
      else (p.transmission.client.sendRound res).map fun c =>
        p.transmission.afterTcp c.1 c.2) = .ok (p.transmission.afterTcp client o)
    rw [hempty, hround]
    rfl
  | idle => exact ⟨[], .nil⟩
  | recv padding res _ => exact ⟨[], .nil⟩

theorem sendRound_wasSent {c d : Client} {res : StreamResult} {o : SendOutcome}
    (h : c.sendRound res = .ok (d, o)) :
    d.mTcpSocket = c.mTcpSocket ∧
      o.wasSent = if c.mTcpSocket.connected then TCPSocket.sendBytes res else false := by
  obtain ⟨index, hindex, hvalue, hd⟩ := Client.sendRound_ok h
  rw [Client.sendRound, hindex, hvalue] at h
  obtain ⟨hd, ho⟩ := Prod.mk.inj (Except.ok.inj h)
  rw [← hd, ← ho]
  exact ⟨rfl, rfl⟩

theorem possible_send {l : TcpLink} {msg msg' : MessageFormat} {padding : Buffer 5}
    {res : StreamResult} (h : l.Possible (.send msg padding res)) :
    l.Possible (.send msg' padding res) := by
  cases res with
  | error => trivial
  | count n => exact h

theorem link_step (h : Guarded Whole (Step clientAddr) p e q) :
    ∃ events, Run (Guarded TcpLink.Whole TcpLink.Step) p.link events q.link := by
  obtain ⟨hwhole, hstep⟩ := h
  cases move_of_step hstep with
  | udp e' t _ _ => exact ⟨[], .nil⟩
  | tcp padding res client o _ hround hpossible =>
    obtain ⟨hsocket, -⟩ := sendRound_wasSent hround
    unfold afterTcp
    rw [hsocket]
    split
    · rename_i hconnected
      refine ⟨[.send o.msg padding res],
        Run.nil.snoc ⟨?_, possible_send (hpossible hconnected), rfl⟩⟩
      cases res with
      | error => trivial
      | count n => exact hwhole
    · exact ⟨[], .nil⟩
  | idle => exact ⟨[], .nil⟩
  | recv padding res hpossible =>
    refine ⟨[.recv padding res], Run.nil.snoc ⟨?_, hpossible, rfl⟩⟩
    cases res with
    | error => trivial
    | count k => exact hwhole

/-- What the kernel has taken is what the rounds of `sendViaTcpSocket` count as sent. -/
def SentAgree (p : Pipeline) : Prop :=
  p.link.sent = (p.transmission.outcomes.filter SendOutcome.wasSent).map SendOutcome.msg

theorem sentAgree_step (h : p.SentAgree) (hstep : Step clientAddr p e q) : q.SentAgree := by
  cases move_of_step hstep with
  | udp e' t _ houtcomes =>
    show p.link.sent = (t.outcomes.filter SendOutcome.wasSent).map SendOutcome.msg
    rw [houtcomes]
    exact h
  | tcp padding res client o _ hround _ =>
    obtain ⟨hsocket, hwas⟩ := sendRound_wasSent hround
    show (if client.mTcpSocket.connected then p.link.next (.send o.msg padding res)
        else p.link).sent =
      ((p.transmission.outcomes ++ [o]).filter SendOutcome.wasSent).map SendOutcome.msg
    rw [List.filter_append, List.map_append, ← h, hsocket]
    cases hconnected : p.transmission.client.mTcpSocket.connected with
    | false =>
      rw [hconnected] at hwas
      rw [List.filter_singleton, hwas]
      exact (List.append_nil _).symm
    | true =>
      rw [hconnected, if_pos rfl] at hwas
      rw [List.filter_singleton, hwas]
      show (if TCPSocket.sendBytes res then p.link.sent ++ [o.msg] else p.link.sent) = _
      cases TCPSocket.sendBytes res with
      | false => exact (List.append_nil _).symm
      | true => rfl
  | idle => exact h
  | recv padding res _ => exact h

end Halves

/-! ## Runs -/

theorem runs_of_halves {clientAddr : SockAddr} {serverSocket clientSocket : Int}
    {bound connected inProgress : Bool} {events : List Event} {p : Pipeline}
    (hrun : Run (Guarded Whole (Step clientAddr))
      (start serverSocket clientSocket bound connected inProgress) events p) :
    (∃ es, Run (Transmission.Step clientAddr)
      (Transmission.start serverSocket clientSocket bound connected inProgress) es p.transmission) ∧
      (∃ es, Run (Guarded TcpLink.Whole TcpLink.Step) {} es p.link) ∧ p.SentAgree := by
  refine hrun.invariant (fun q => (∃ es, Run (Transmission.Step clientAddr)
    (Transmission.start serverSocket clientSocket bound connected inProgress) es q.transmission) ∧
      (∃ es, Run (Guarded TcpLink.Whole TcpLink.Step) {} es q.link) ∧ q.SentAgree)
    ⟨⟨[], .nil⟩, ⟨[], .nil⟩, rfl⟩ fun hu hstep => ?_
  obtain ⟨⟨es, hes⟩, ⟨fs, hfs⟩, hsent⟩ := hu
  obtain ⟨es', hes'⟩ := transmission_step hstep.2
  obtain ⟨fs', hfs'⟩ := link_step hstep
  exact ⟨⟨es ++ es', run_append_iff.mpr ⟨_, hes, hes'⟩⟩, ⟨fs ++ fs', run_append_iff.mpr ⟨_, hfs, hfs'⟩⟩,
    sentAgree_step hsent hstep.2⟩

/-- As long as `send` and `recv` move whole messages or fail, everything that `start_` reports was
built by the server with the id to forward, and the reports are, in this order, the first of the
messages for which `sendViaTcpSocket` got true. -/
theorem reported_genuine {clientAddr : SockAddr} (hdistinct : clientAddr ≠ serverAddr)
    {serverSocket clientSocket : Int} {bound connected inProgress : Bool} {events : List Event}
    {p : Pipeline} (hrun : Run (Guarded Whole (Step clientAddr))
      (start serverSocket clientSocket bound connected inProgress) events p) :
    p.link.reported <+:
        (p.transmission.outcomes.filter SendOutcome.wasSent).map SendOutcome.msg ∧
      ∀ msg ∈ p.link.reported, msg.messageId = tcpResendID ∧ msg.messageData % 20 = tcpResendID ∧
        msg ∈ p.transmission.built := by
  obtain ⟨⟨es, hes⟩, ⟨fs, hfs⟩, hsent⟩ := runs_of_halves hrun
  have hsound : p.transmission.Sound clientAddr := hes.invariant (Transmission.Sound clientAddr)
    (Transmission.sound_start clientAddr serverSocket clientSocket bound connected inProgress)
    (Transmission.sound_step hdistinct)
  have hframed : p.link.Framed := hfs.invariant TcpLink.Framed
    ⟨[], rfl, TcpLink.inFlight_nil.mpr rfl⟩ TcpLink.framed_step
  obtain ⟨rest, hrest, -⟩ := hframed
  have hfirst : p.link.reported <+:
      (p.transmission.outcomes.filter SendOutcome.wasSent).map SendOutcome.msg :=
    ⟨rest, hrest.symm.trans hsent⟩
  refine ⟨hfirst, fun msg hmsg => ?_⟩
  obtain ⟨o, ho, rfl⟩ := List.mem_map.mp (hfirst.subset hmsg)
  exact hsound.fed.taken hsound.ids (List.mem_of_mem_filter ho)

/-- The message 10 goes all the way. -/
theorem reported_genuine_ten :
    let clientAddr : SockAddr := ⟨afInet, loopbackAddr, 4096⟩
    let pad : Buffer 5 := ⟨[0, 0, 0, 0, 0], rfl⟩
    let ask : ClientRound := ⟨1, true, true, false, .error, pad⟩
    let answer : ServerRound :=
      ⟨1, true, .datagram clientAddr (commandToRaw Client.cmd).bytes, true, true, pad⟩
    let store : ClientRound :=
      ⟨1, false, false, true, .datagram serverAddr ((makeMessageDiv20 10).toRaw pad).bytes, pad⟩
    let events := .client ask :: (List.replicate 11 (.server answer) ++
      [.client store, .tcp pad (.count 24), .recv pad (.count 24)])
    ∃ p, Run (Guarded Whole (Step clientAddr)) (start 3 3 true true false) events p ∧
      p.link.reported = [makeMessageDiv20 10] ∧ makeMessageDiv20 10 ∈ p.transmission.built := by
  intro clientAddr pad ask answer store events
  obtain ⟨p, hrun, hreported⟩ := exists_run_of_foldlM
    (guard Whole (guard (Possible clientAddr) (next clientAddr))) (start 3 3 true true false)
    events (fun p => p.link.reported) (b := [makeMessageDiv20 10]) (by decide +kernel)
  rw [ofExcept_guard, ofExcept_guard] at hrun
  have h := reported_genuine (by decide) hrun
  exact ⟨p, hrun, hreported, (h.2 _ (by rw [hreported]; exact List.mem_cons_self)).2.2⟩

end Pipeline

end MessageTransmitter
