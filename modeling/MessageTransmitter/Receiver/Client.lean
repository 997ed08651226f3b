import MessageTransmitter.Common.TcpSocket
import MessageTransmitter.Common.UdpSocket
import MessageTransmitter.Receiver.ConcurrentFill

/-!
# The client

`udp_receiver/client.h` and `client.cpp`: rounds of the UDP loop `Client::start`, which several
threads run one at a time under `m_mutex_message`, and of the loop `Client::sendViaTcpSocket`.
-/

open Bytes

namespace MessageTransmitter

structure Client where
  mContainer : Container := {}
  mContainerTcpQueue : Container := {}
  mUdpSocket : UDPSocket
  mTcpSocket : TCPSocket := {}
  deriving DecidableEq, Repr

/-- What the system does in one round of `Client::start`. -/
structure ClientRound where
  -- the result of `select`
  selected : Int
  readySend : Bool
  sendAccepted : Bool
  readyRecv : Bool
  recvResult : RecvResult
  -- what the padding of the local `MessageFormat` holds
  padding : Buffer 5
  deriving DecidableEq

/-- What one round of `sendViaTcpSocket` did with the message it took. -/
structure SendOutcome where
  msg : MessageFormat
  -- the branch that logs "error, bad message id" was taken
  badMessageId : Bool
  wasSent : Bool
  deriving DecidableEq, Repr

namespace Client

/-- `Client::Client()`: `socket` is the descriptor of the UDP socket, the flags are the outcome of
connecting the TCP socket. -/
def construct (socket : Int) (connected inProgress : Bool) : Client where
  mUdpSocket :=
    ({ mSocketType := .client, mSocket := socket } : UDPSocket).bind loopbackAddr recvUdpPort true
  mTcpSocket := ({} : TCPSocket).connect connected inProgress

def sendViaTcpRequired (msg : MessageFormat) : Bool := msg.messageId = tcpResendID

def sendCommand (c : Client) (cmd : Int32) (accepted : Bool) : Bool × Option Datagram :=
  c.mUdpSocket.sendBytes (commandToRaw cmd) accepted

def recvMessage (c : Client) (msg : RawMessage) (res : RecvResult) : Bool × RawMessage × Client :=
  let (wasReceived, msg, sock) := c.mUdpSocket.recvBytes msg res
  (wasReceived, msg, { c with mUdpSocket := sock })

def saveMessage (c : Client) (msg : MessageFormat) : Client :=
  { c with mContainer := c.mContainer.add msg }

/-- What `start` does with a received message: save it, and queue it for TCP if required. -/
def receive (c : Client) (msg : MessageFormat) : Client :=
  let c := c.saveMessage msg
  if sendViaTcpRequired msg then
    -- under `m_mutex_tcp`: the current size is the new index
    let tcpQueueSize := c.mContainerTcpQueue.size
    { c with mContainerTcpQueue := c.mContainerTcpQueue.insert tcpQueueSize msg }
  else c

/-- The receiving part of a round: the message starts out default-initialised. -/
def recvRound (c : Client) (padding : Buffer 5) (res : RecvResult) : Client :=
  let m := ({} : MessageFormat).toRaw padding
  let (wasReceived, m, c) := c.recvMessage m res
  if wasReceived then c.receive (MessageFormat.ofRaw m) else c

def cmd : Int32 := 200

/-- One round of `start`, with the datagram it hands to the network. -/
def startRound (c : Client) (r : ClientRound) : Client × Option Datagram :=
  if !c.mUdpSocket.isOpen then (c, none)
  -- -1 is an error of `select` and 0 a timeout, both are only logged
  else if r.selected = -1 then (c, none)
  else if r.selected = 0 then (c, none)
  else
    let sent := if r.readySend then (c.sendCommand cmd r.sendAccepted).2 else none
    if !c.mUdpSocket.hasServer then (c, sent)
    else if r.readyRecv then (c.recvRound r.padding r.recvResult, sent)
    else (c, sent)

/-- One round of `sendViaTcpSocket` once the predicate of its wait holds; `res` is the result of
`send`. -/
def sendRound (c : Client) (res : StreamResult) : Except Fault (Client × SendOutcome) := do
  let index ← c.mContainerTcpQueue.beginIndex
  let msg ← c.mContainerTcpQueue.beginValue
  -- the message leaves the queue before anything is known about the connection
  let c := { c with mContainerTcpQueue := c.mContainerTcpQueue.remove index }
  let badMessageId : Bool := msg.messageId % tcpResendID ≠ 0
  let wasSent := if c.mTcpSocket.connected then TCPSocket.sendBytes res else false
  return (c, ⟨msg, badMessageId, wasSent⟩)

/-- One step of the client: a round of `start` in some UDP thread, or one of `sendViaTcpSocket`. -/
inductive Event where
  | udp (r : ClientRound)
  | tcp (res : StreamResult)

def step (c : Client) : Event → Except Fault Client
  | .udp r => .ok (c.startRound r).1
  | .tcp res =>
      -- the wait on `m_cv_tcp` goes on while the queue is empty
      if c.mContainerTcpQueue.empty then .ok c
      else (c.sendRound res).map Prod.fst

/-! ## What a received message changes -/

@[simp] theorem receive_mContainer (c : Client) (msg : MessageFormat) :
    (c.receive msg).mContainer = c.mContainer.add msg := by
  simp only [receive, saveMessage]
  split <;> rfl

@[simp] theorem receive_mUdpSocket (c : Client) (msg : MessageFormat) :
    (c.receive msg).mUdpSocket = c.mUdpSocket := by
  simp only [receive, saveMessage]
  split <;> rfl

theorem receive_queue (c : Client) (msg : MessageFormat) :
    (c.receive msg).mContainerTcpQueue =
      if sendViaTcpRequired msg then c.mContainerTcpQueue.insert c.mContainerTcpQueue.size msg
      else c.mContainerTcpQueue := by
  simp only [receive, saveMessage]
  split <;> rfl

theorem recvRound_error (c : Client) (padding : Buffer 5) : c.recvRound padding .error = c := rfl

/-- A datagram of any length counts as a message: its bytes over the front of a default one. -/
theorem recvRound_datagram {c : Client} (hclient : c.mUdpSocket.isServer = false)
    (padding : Buffer 5) (source : SockAddr) (data : List UInt8) :
    c.recvRound padding (.datagram source data) =
      ({ c with mUdpSocket := { c.mUdpSocket with servaddr := source } } : Client).receive
        (MessageFormat.ofRaw ((({} : MessageFormat).toRaw padding).fill data)) := by
  simp only [recvRound, recvMessage, UDPSocket.recvBytes_datagram, hclient, if_true,
    Bool.false_eq_true, if_false]

theorem startRound_fst (c : Client) (r : ClientRound) :
    (c.startRound r).1 = c ∨ (c.startRound r).1 = c.recvRound r.padding r.recvResult := by
  unfold startRound
  split_ifs
  all_goals first | exact Or.inl rfl | exact Or.inr rfl

theorem startRound_snd {c : Client} {r : ClientRound} {d : Datagram}
    (h : (c.startRound r).2 = some d) : d = ⟨c.mUdpSocket.destination, (commandToRaw cmd).bytes⟩ := by
  unfold startRound at h
  split_ifs at h
  all_goals exact UDPSocket.sendBytes_datagram h

/-- A round of `sendViaTcpSocket` that does not fault reads and removes at one index, and touches
nothing but the queue. -/
theorem sendRound_ok {c d : Client} {res : StreamResult} {o : SendOutcome}
    (h : c.sendRound res = .ok (d, o)) :
    ∃ index, c.mContainerTcpQueue.beginIndex = .ok index ∧
      c.mContainerTcpQueue.beginValue = .ok o.msg ∧
      d = { c with mContainerTcpQueue := c.mContainerTcpQueue.remove index } := by
  rw [sendRound] at h
  cases hindex : c.mContainerTcpQueue.beginIndex with
  | error e => rw [hindex] at h; cases h
  | ok index =>
    cases hvalue : c.mContainerTcpQueue.beginValue with
    | error e => rw [hindex, hvalue] at h; cases h
    | ok msg =>
      rw [hindex, hvalue] at h
      obtain ⟨rfl, rfl⟩ := Prod.mk.inj (Except.ok.inj h)
      exact ⟨index, rfl, rfl, rfl⟩

/-- A round of `sendViaTcpSocket` takes the first entry out of the queue, sent or not. -/
theorem sendRound_of_cons {c : Client} (h : c.mContainerTcpQueue.mPimpl.Valid) {k : UInt64}
    {v : MessageFormat} {es : List (UInt64 × MessageFormat)}
    (he : c.mContainerTcpQueue.mPimpl.contents = (k, v) :: es) (res : StreamResult) :
    c.sendRound res = .ok ({ c with mContainerTcpQueue := c.mContainerTcpQueue.remove k },
      { msg := v
        badMessageId := v.messageId % tcpResendID ≠ 0
        wasSent := if c.mTcpSocket.connected then TCPSocket.sendBytes res else false }) := by
  have hindex : c.mContainerTcpQueue.beginIndex = .ok k := BstImpl.beginIndex_of_cons he
  have hvalue : c.mContainerTcpQueue.beginValue = .ok v := h.beginValue_of_cons he
  rw [sendRound, hindex, hvalue]
  rfl

theorem step_tcp_of_cons {c : Client} (h : c.mContainerTcpQueue.mPimpl.Valid) {k : UInt64}
    {v : MessageFormat} {es : List (UInt64 × MessageFormat)}
    (he : c.mContainerTcpQueue.mPimpl.contents = (k, v) :: es)
    (hempty : c.mContainerTcpQueue.empty = false) (res : StreamResult) :
    c.step (.tcp res) = .ok { c with mContainerTcpQueue := c.mContainerTcpQueue.remove k } := by
  rw [step, hempty, sendRound_of_cons h he]
  rfl

theorem recvRound_mSocketType (c : Client) (padding : Buffer 5) (res : RecvResult) :
    (c.recvRound padding res).mUdpSocket.mSocketType = c.mUdpSocket.mSocketType := by
  cases res with
  | error => rfl
  | datagram source data =>
    simp only [recvRound, recvMessage, UDPSocket.recvBytes_datagram, if_true, receive_mUdpSocket]
    split <;> rfl

/-- The TCP thread waits while the queue is empty, else it does a round. -/
theorem tcpRound_cases {σ : Type*} {c : Client} {res : StreamResult} {s t : σ}
    {f : Client × SendOutcome → σ}
    (h : (if c.mContainerTcpQueue.empty then .ok s else (c.sendRound res).map f) = Except.ok t) :
    t = s ∨ ∃ d o, c.mContainerTcpQueue.empty = false ∧ c.sendRound res = .ok (d, o) ∧
      t = f (d, o) := by
  cases hempty : c.mContainerTcpQueue.empty with
  | true =>
    rw [hempty] at h
    exact .inl (Except.ok.inj h).symm
  | false =>
    rw [hempty] at h
    cases hround : c.sendRound res with
    | error e => rw [hround] at h; cases h
    | ok p =>
      rw [hround] at h
      exact .inr ⟨p.1, p.2, rfl, rfl, (Except.ok.inj h).symm⟩

theorem step_tcp {c d : Client} {res : StreamResult} (h : c.step (.tcp res) = .ok d) :
    ∃ queue, d = { c with mContainerTcpQueue := queue } := by
  rcases tcpRound_cases h with rfl | ⟨d', o, -, hround, rfl⟩
  · exact ⟨d.mContainerTcpQueue, rfl⟩
  · obtain ⟨index, -, -, hd⟩ := sendRound_ok hround
    exact ⟨_, hd⟩

theorem step_mSocketType {c d : Client} {e : Event} (h : c.step e = .ok d) :
    d.mUdpSocket.mSocketType = c.mUdpSocket.mSocketType := by
  cases e with
  | udp r =>
    obtain rfl : (c.startRound r).1 = d := Except.ok.inj h
    rcases startRound_fst c r with hsame | hrecv
    · rw [hsame]
    · rw [hrecv, recvRound_mSocketType]
  | tcp res =>
    obtain ⟨queue, rfl⟩ := step_tcp h
    rfl

/-! ## A round of `start` in two parts -/

/-- The receiving part of a round up to `lock_tcp`, with the message that has to be queued. -/
def recvBeforeTcp (c : Client) (padding : Buffer 5) (res : RecvResult) :
    Client × Option MessageFormat :=
  let m := ({} : MessageFormat).toRaw padding
  let (wasReceived, m, c) := c.recvMessage m res
  if wasReceived then
    let m := MessageFormat.ofRaw m
    (c.saveMessage m, if sendViaTcpRequired m then some m else none)
  else (c, none)

/-- A round of an open client up to `lock_tcp`.  Sending the sync command changes nothing in the
client. -/
def startBeforeTcp (c : Client) (r : ClientRound) : Client × Option MessageFormat :=
  if r.selected = -1 then (c, none)
  else if r.selected = 0 then (c, none)
  else if !c.mUdpSocket.hasServer then (c, none)
  else if r.readyRecv then c.recvBeforeTcp r.padding r.recvResult
  else (c, none)

def queueForTcp (c : Client) : Option MessageFormat → Client
  | none => c
  | some msg =>
      let tcpQueueSize := c.mContainerTcpQueue.size
      { c with mContainerTcpQueue := c.mContainerTcpQueue.insert tcpQueueSize msg }

theorem recvRound_eq (c : Client) (padding : Buffer 5) (res : RecvResult) :
    c.recvRound padding res =
      (c.recvBeforeTcp padding res).1.queueForTcp (c.recvBeforeTcp padding res).2 := by
  cases res with
  | error => rfl
  | datagram source data =>
    simp only [recvRound, recvBeforeTcp, recvMessage, UDPSocket.recvBytes_datagram, if_true, receive]
    split <;> rfl

theorem recvBeforeTcp_queue (c : Client) (padding : Buffer 5) (res : RecvResult) :
    (c.recvBeforeTcp padding res).1.mContainerTcpQueue = c.mContainerTcpQueue := by
  cases res with
  | error => rfl
  | datagram source data =>
    simp only [recvBeforeTcp, recvMessage, UDPSocket.recvBytes_datagram, if_true]
    rfl

theorem startBeforeTcp_queue (c : Client) (r : ClientRound) :
    (c.startBeforeTcp r).1.mContainerTcpQueue = c.mContainerTcpQueue := by
  unfold startBeforeTcp
  split_ifs
  all_goals first | rfl | exact recvBeforeTcp_queue c r.padding r.recvResult

theorem startBeforeTcp_of_queue (c : Client) (queue : Container) (r : ClientRound) :
    ({ c with mContainerTcpQueue := queue } : Client).startBeforeTcp r =
      ({ (c.startBeforeTcp r).1 with mContainerTcpQueue := queue }, (c.startBeforeTcp r).2) := by
  unfold startBeforeTcp
  split_ifs
  all_goals first | rfl | skip
  cases r.recvResult with
  | error => rfl
  | datagram source data =>
    simp only [recvBeforeTcp, recvMessage, UDPSocket.recvBytes_datagram, if_true]
    rfl

theorem startBeforeTcp_isOpen (c : Client) (r : ClientRound) :
    (c.startBeforeTcp r).1.mUdpSocket.isOpen = c.mUdpSocket.isOpen := by
  unfold startBeforeTcp
  split_ifs
  all_goals first | rfl | skip
  cases r.recvResult with
  | error => rfl
  | datagram source data =>
    simp only [recvBeforeTcp, recvMessage, UDPSocket.recvBytes_datagram, if_true, saveMessage]
    split
    all_goals rfl

theorem startBeforeTcp_mTcpSocket (c : Client) (r : ClientRound) :
    (c.startBeforeTcp r).1.mTcpSocket = c.mTcpSocket := by
  unfold startBeforeTcp
  split_ifs
  all_goals first | rfl | skip
  cases r.recvResult with
  | error => rfl
  | datagram source data =>
    simp only [recvBeforeTcp, recvMessage, UDPSocket.recvBytes_datagram, if_true]
    rfl

theorem startRound_eq {c : Client} (hopen : c.mUdpSocket.isOpen = true) (r : ClientRound) :
    (c.startRound r).1 = (c.startBeforeTcp r).1.queueForTcp (c.startBeforeTcp r).2 := by
  unfold startRound startBeforeTcp
  rw [hopen]
  split_ifs
  all_goals first | rfl | exact recvRound_eq c r.padding r.recvResult | contradiction

/-! ## The queue through the steps of the client -/

theorem queueForTcp_valid {c : Client} (h : c.mContainerTcpQueue.mPimpl.Valid)
    (msg : Option MessageFormat) : (c.queueForTcp msg).mContainerTcpQueue.mPimpl.Valid := by
  cases msg with
  | none => exact h
  | some msg => exact h.insert _ msg

/-- No step faults, and the queue stays a well-formed store. -/
theorem exists_step {c : Client} (h : c.mContainerTcpQueue.mPimpl.Valid) (e : Event) :
    ∃ d, c.step e = .ok d ∧ d.mContainerTcpQueue.mPimpl.Valid := by
  cases e with
  | udp r =>
    refine ⟨(c.startRound r).1, rfl, ?_⟩
    rcases startRound_fst c r with hsame | hrecv
    · rwa [hsame]
    · rw [hrecv, recvRound_eq]
      exact queueForTcp_valid (by rwa [recvBeforeTcp_queue]) _
  | tcp res =>
    cases hempty : c.mContainerTcpQueue.empty with
    | true => exact ⟨c, by rw [step, hempty]; rfl, h⟩
    | false =>
      obtain ⟨⟨k, v⟩, es, he⟩ := List.exists_cons_of_ne_nil (h.contents_ne_nil hempty)
      exact ⟨_, step_tcp_of_cons h he hempty res, h.remove k⟩

/-! ## The store of received messages -/

def receiveAll (c : Client) (msgs : List MessageFormat) : Client := msgs.foldl receive c

theorem receiveAll_mContainer {c : Client} (hc : c.mContainer = {}) (msgs : List MessageFormat) :
    (c.receiveAll msgs).mContainer = Container.fill (msgs.map fun m => ((), FillCall.add m)) := by
  induction msgs using List.reverseRecOn with
  | nil => exact hc
  | append_singleton msgs m ih =>
    rw [receiveAll, List.foldl_append, List.foldl_cons, List.foldl_nil, receive_mContainer]
    show (c.receiveAll msgs).mContainer.add m = _
    rw [ih, Container.fill, Container.fill, List.map_append, List.map_append, List.map_singleton,
      List.map_singleton, Container.run_snoc]
    rfl

/-- Under each id the store keeps the first message received with it. -/
theorem lookup_receiveAll {c : Client} (hc : c.mContainer = {}) (msgs : List MessageFormat)
    (k : UInt64) : (c.receiveAll msgs).mContainer.mPimpl.contents.lookup k =
      msgs.find? fun m => m.messageId = k := by
  rw [receiveAll_mContainer hc, Container.lookup_fill, Container.firstMessage, List.find?_map,
    Option.map_map]
  exact Option.map_id'

theorem valid_receiveAll {c : Client} (hc : c.mContainer = {}) (msgs : List MessageFormat) :
    (c.receiveAll msgs).mContainer.mPimpl.Valid := by
  rw [receiveAll_mContainer hc]
  exact Container.valid_fill _

/-- The store holds `msg` exactly when `msg` is the first message received with its id. -/
theorem stored_iff {c : Client} (hc : c.mContainer = {}) (msgs : List MessageFormat)
    (msg : MessageFormat) :
    (∃ k, (c.receiveAll msgs).mContainer.contains k = true ∧
      (c.receiveAll msgs).mContainer.atId k = .ok msg) ↔
    msgs.find? (fun m => m.messageId = msg.messageId) = some msg := by
  have hvalid := valid_receiveAll hc msgs
  have hat : ∀ k, (c.receiveAll msgs).mContainer.atId k = .ok msg ↔
      msgs.find? (fun m => m.messageId = k) = some msg := fun k => by
    rw [← lookup_receiveAll hc, hvalid.sorted.lookup_eq_some]
    exact hvalid.atId_ok_iff
  apply Iff.intro
  · rintro ⟨k, -, hk⟩
    have hfind := (hat k).mp hk
    have hid : msg.messageId = k := by simpa using List.find?_some hfind
    rw [hid, hfind]
  · intro hfind
    refine ⟨msg.messageId, ?_, (hat _).mpr hfind⟩
    rw [Container.contains, hvalid.contains_eq_isSome, lookup_receiveAll hc, hfind]
    rfl

/-- After any sequence of received messages the store holds all of them exactly when no two
different ones share an id. -/
theorem all_stored_iff (socket : Int) (connected inProgress : Bool) (msgs : List MessageFormat) :
    let c := (construct socket connected inProgress).receiveAll msgs
    (∀ msg ∈ msgs, ∃ k, c.mContainer.contains k = true ∧ c.mContainer.atId k = .ok msg) ↔
      ∀ m ∈ msgs, ∀ n ∈ msgs, m.messageId = n.messageId → m = n := by
  simp only [stored_iff (c := construct socket connected inProgress) rfl]
  apply Iff.intro
  · -- both are the first message with their common id
    intro h m hm n hn hid
    have hfirst := h m hm
    rw [hid, h n hn] at hfirst
    exact (Option.some.inj hfirst).symm
  · -- the first message with the id of `msg` is `msg` itself
    intro h msg hmsg
    obtain ⟨first, hfirst⟩ := Option.isSome_iff_exists.mp
      (List.find?_isSome.mpr ⟨msg, hmsg, decide_eq_true rfl⟩ :
        (msgs.find? fun m => m.messageId = msg.messageId).isSome = true)
    have hid : first.messageId = msg.messageId := by simpa using List.find?_some hfirst
    rw [hfirst, h first (List.mem_of_find?_eq_some hfirst) msg hmsg hid]

/-- The server's messages 0 and 20 share id 0; the second one is not stored. -/
theorem all_stored_broken :
    let msgs := [makeMessageDiv20 0, makeMessageDiv20 20]
    let c := (construct 3 true false).receiveAll msgs
    ¬ ∀ msg ∈ msgs, ∃ k, c.mContainer.contains k = true ∧ c.mContainer.atId k = .ok msg := by
  intro msgs c h
  have hfirst := (stored_iff rfl msgs (makeMessageDiv20 20)).mp (h (makeMessageDiv20 20) (by decide))
  exact absurd hfirst (by decide)

end Client

end MessageTransmitter
