import MessageTransmitter.Receiver.BstPointers
import MessageTransmitter.Receiver.Synchronisation

/-!
# The receiver's threads on pointers

`Client::start` and `Client::sendViaTcpSocket` as in `Threads`, but the nodes of `m_container` and of
`m_containerTcpQueue` lie in one memory, that of the process.  A step comes with the address that
`new` would return during it.
-/

open Bytes LinkedTree Transition

namespace MessageTransmitter

/-- What a container keeps outside of the memory. -/
structure PtrContainer where
  mRoot : Ptr := null
  mSize : UInt64 := 0
  deriving DecidableEq, Repr

structure PtrClient where
  memory : NodeMemory := fun _ => none
  mContainer : PtrContainer := {}
  mContainerTcpQueue : PtrContainer := {}
  mUdpSocket : UDPSocket
  mTcpSocket : TCPSocket := {}

namespace PtrClient

def store (c : PtrClient) : PtrBst := ⟨c.memory, c.mContainer.mRoot, c.mContainer.mSize⟩

def queue (c : PtrClient) : PtrBst :=
  ⟨c.memory, c.mContainerTcpQueue.mRoot, c.mContainerTcpQueue.mSize⟩

def setStore (c : PtrClient) (s : PtrBst) : PtrClient :=
  { c with memory := s.memory, mContainer := ⟨s.mRoot, s.mSize⟩ }

def setQueue (c : PtrClient) (s : PtrBst) : PtrClient :=
  { c with memory := s.memory, mContainerTcpQueue := ⟨s.mRoot, s.mSize⟩ }

def construct (socket : Int) (connected inProgress : Bool) : PtrClient where
  mUdpSocket :=
    ({ mSocketType := .client, mSocket := socket } : UDPSocket).bind loopbackAddr recvUdpPort true
  mTcpSocket := ({} : TCPSocket).connect connected inProgress

def recvMessage (c : PtrClient) (msg : RawMessage) (res : RecvResult) :
    Bool × RawMessage × PtrClient :=
  let (wasReceived, msg, sock) := c.mUdpSocket.recvBytes msg res
  (wasReceived, msg, { c with mUdpSocket := sock })

def saveMessage (fuel : ℕ) (temp : Ptr) (c : PtrClient) (msg : MessageFormat) :
    PtrResult PtrClient := do
  let store ← c.store.add fuel temp msg
  .ok (c.setStore store)

def recvBeforeTcp (fuel : ℕ) (temp : Ptr) (c : PtrClient) (padding : Buffer 5) (res : RecvResult) :
    PtrResult (PtrClient × Option MessageFormat) :=
  let m := ({} : MessageFormat).toRaw padding
  let (wasReceived, m, c) := c.recvMessage m res
  if wasReceived then do
    let m := MessageFormat.ofRaw m
    let c ← c.saveMessage fuel temp m
    .ok (c, if Client.sendViaTcpRequired m then some m else none)
  else .ok (c, none)

def startBeforeTcp (fuel : ℕ) (temp : Ptr) (c : PtrClient) (r : ClientRound) :
    PtrResult (PtrClient × Option MessageFormat) :=
  if r.selected = -1 then .ok (c, none)
  else if r.selected = 0 then .ok (c, none)
  else if !c.mUdpSocket.hasServer then .ok (c, none)
  else if r.readyRecv then c.recvBeforeTcp fuel temp r.padding r.recvResult
  else .ok (c, none)

end PtrClient

structure PtrThreads (ι : Type*) where
  client : PtrClient
  messageOwner : Option ι := none
  tcpOwner : Option (Thread ι) := none
  udp : ι → UdpPhase := fun _ => .outside
  tcp : TcpPhase := .outside

/-- Why a thread does not move, or how its call fails. -/
inductive PtrStop where
  | blocked
  | fault (f : LinkedTree.Fault String)
  deriving DecidableEq, Repr

namespace PtrThreads

variable {ι : Type*}

def start (ι : Type*) (socket : Int) (connected inProgress : Bool) : PtrThreads ι where
  client := PtrClient.construct socket connected inProgress

def tcpStep (fuel : ℕ) (s : PtrThreads ι) (res : StreamResult) : Except PtrStop (PtrThreads ι) :=
  match s.tcp with
  | .outside | .woken =>
      if s.tcpOwner.isNone then .ok { s with tcpOwner := some .tcp, tcp := .checking }
      else .error .blocked
  | .checking => .ok { s with tcp := if s.client.queue.empty then .parking else .ready }
  | .parking => .ok { s with tcpOwner := none, tcp := .parked false }
  | .parked _ => .ok { s with tcp := .woken }
  | .ready =>
      match s.client.queue.beginIndex fuel with
      | .ok index => .ok { s with tcp := .indexed index }
      | .error f => .error (.fault f)
  | .indexed index =>
      match s.client.queue.beginValue fuel with
      | .ok msg => .ok { s with tcp := .valued index msg }
      | .error f => .error (.fault f)
  | .valued index msg =>
      match s.client.queue.remove fuel index with
      | .ok queue => .ok { s with client := s.client.setQueue queue, tcp := .removed msg }
      | .error f => .error (.fault f)
  | .removed msg =>
      let badMessageId : Bool := msg.messageId % tcpResendID ≠ 0
      let wasSent := if s.client.mTcpSocket.connected then TCPSocket.sendBytes res else false
      .ok { s with tcp := .sent ⟨msg, badMessageId, wasSent⟩ }
  | .sent _ => .ok { s with tcpOwner := none, tcp := .outside }

variable [DecidableEq ι]

def setUdp (s : PtrThreads ι) (i : ι) (phase : UdpPhase) : PtrThreads ι :=
  { s with udp := Function.update s.udp i phase }

def udpStep (fuel : ℕ) (temp : Ptr) (s : PtrThreads ι) (i : ι) (r : ClientRound) :
    Except PtrStop (PtrThreads ι) :=
  match s.udp i with
  | .outside =>
      if s.client.mUdpSocket.isOpen && s.messageOwner.isNone then
        .ok { s.setUdp i .messageLocked with messageOwner := some i }
      else .error .blocked
  | .messageLocked =>
      match s.client.startBeforeTcp fuel temp r with
      | .ok (client, msg) => .ok { s.setUdp i (msg.elim .finished .queueing) with client := client }
      | .error f => .error (.fault f)
  | .queueing msg =>
      if s.tcpOwner.isNone then .ok { s.setUdp i (.tcpLocked msg) with tcpOwner := some (.udp i) }
      else .error .blocked
  | .tcpLocked msg => .ok (s.setUdp i (.sized msg s.client.queue.size))
  | .sized msg tcpQueueSize =>
      match s.client.queue.insert fuel temp tcpQueueSize msg with
      | .ok queue => .ok { s.setUdp i .inserted with client := s.client.setQueue queue }
      | .error f => .error (.fault f)
  | .inserted => .ok { s.setUdp i .notified with tcp := s.tcp.notify }
  | .notified => .ok { s.setUdp i .finished with tcpOwner := none }
  | .finished => .ok { s.setUdp i .outside with messageOwner := none }

/-- A step of a thread and the address that `new` returns if the step makes a node. -/
abbrev Event (ι : Type*) := Threads.Event ι × Ptr

def step (fuel : ℕ) (s : PtrThreads ι) : Event ι → Except PtrStop (PtrThreads ι)
  | (.udp i r, temp) => s.udpStep fuel temp i r
  | (.tcp res, _) => s.tcpStep fuel res

omit [DecidableEq ι] in
/-- The allocator offers an address that neither container uses. -/
def Offered (s : PtrThreads ι) (e : Event ι) : Prop := s.client.memory.Fresh e.2

instance instDecidableOffered (s : PtrThreads ι) (e : Event ι) : Decidable (s.Offered e) :=
  inferInstanceAs (Decidable (s.client.memory.Fresh e.2))

/-- The runs of the threads whose recursions go no deeper than `fuel`. -/
def Runs (fuel : ℕ) : PtrThreads ι → List (Event ι) → PtrThreads ι → Prop :=
  Run (Guarded Offered (ofExcept (step fuel)))

end PtrThreads

/-! ## The client -/

namespace PtrClient

/-- The containers hold the trees `t` and `u` of `spec`, apart from each other, and there are no
other nodes. -/
structure Represents (c : PtrClient) (t u : NodeLayout) (spec : Client) : Prop where
  store : c.store.Holds t spec.mContainer.mPimpl
  queue : c.queue.Holds u spec.mContainerTcpQueue.mPimpl
  apart : ∀ q ∈ t.ptrs, q ∉ u.ptrs
  noLeak : ∀ q, c.memory q ≠ none → q ∈ t.ptrs ∨ q ∈ u.ptrs
  udpSocket : c.mUdpSocket = spec.mUdpSocket
  tcpSocket : c.mTcpSocket = spec.mTcpSocket

theorem represents_construct (socket : Int) (connected inProgress : Bool) :
    (construct socket connected inProgress).Represents .nil .nil
      (Client.construct socket connected inProgress) where
  store := PtrBst.holds_nil _
  queue := PtrBst.holds_nil _
  apart := fun _ hq => absurd hq List.not_mem_nil
  noLeak := fun _ hq => absurd rfl hq
  udpSocket := rfl
  tcpSocket := rfl

namespace Represents

variable {c : PtrClient} {t t' u u' : NodeLayout} {spec : Client} {s : PtrBst} {tree : BstImpl}
  {fuel : ℕ} {temp : Ptr}

/-- A call on `m_container` does not get at the nodes of the queue. -/
theorem setStore (h : c.Represents t u spec) (hs : s.Holds t' tree)
    (hrew : Rewrites c.memory s.memory t t') :
    (c.setStore s).Represents t' u { spec with mContainer := ⟨tree⟩ } where
  store := hs
  queue := ⟨(hrew.apart h.queue.owns h.apart).1, h.queue.root, h.queue.tree, h.queue.size⟩
  apart := (hrew.apart h.queue.owns h.apart).2
  noLeak := fun q hq => by
    rcases hrew.in_use hq with hmem | ⟨hnot, hused⟩
    · exact .inl hmem
    · exact .inr ((h.noLeak q hused).resolve_left hnot)
  udpSocket := h.udpSocket
  tcpSocket := h.tcpSocket

theorem setQueue (h : c.Represents t u spec) (hs : s.Holds u' tree)
    (hrew : Rewrites c.memory s.memory u u') :
    (c.setQueue s).Represents t u' { spec with mContainerTcpQueue := ⟨tree⟩ } where
  store := by
    have hframe := hrew.apart h.store.owns fun q hqu hqt => h.apart q hqt hqu
    exact ⟨hframe.1, h.store.root, h.store.tree, h.store.size⟩
  queue := hs
  apart := fun q hqt hqu =>
    (hrew.apart h.store.owns fun q hqu hqt => h.apart q hqt hqu).2 q hqu hqt
  noLeak := fun q hq => by
    rcases hrew.in_use hq with hmem | ⟨hnot, hused⟩
    · exact .inr hmem
    · exact .inl ((h.noLeak q hused).resolve_right hnot)
  udpSocket := h.udpSocket
  tcpSocket := h.tcpSocket

theorem recvBeforeTcp (h : c.Represents t u spec) (hfuel : t.height < fuel)
    (htemp : c.memory.Fresh temp) (padding : Buffer 5) (res : RecvResult) :
    ∃ c' t', c.recvBeforeTcp fuel temp padding res = .ok (c', (spec.recvBeforeTcp padding res).2) ∧
      c'.Represents t' u (spec.recvBeforeTcp padding res).1 ∧ t'.height ≤ t.height + 1 := by
  unfold PtrClient.recvBeforeTcp Client.recvBeforeTcp PtrClient.recvMessage Client.recvMessage
  rw [h.udpSocket]
  dsimp only
  generalize spec.mUdpSocket.recvBytes (({} : MessageFormat).toRaw padding) res = received
  obtain ⟨wasReceived, m, sock⟩ := received
  have hsock : ({ c with mUdpSocket := sock } : PtrClient).Represents t u
      { spec with mUdpSocket := sock } :=
    ⟨h.store, h.queue, h.apart, h.noLeak, rfl, h.tcpSocket⟩
  cases wasReceived with
  | false => exact ⟨_, t, rfl, hsock, Nat.le_succ _⟩
  | true =>
    obtain ⟨s, hs, hholds, hrew⟩ := hsock.store.insert hfuel htemp (MessageFormat.ofRaw m).messageId
      (MessageFormat.ofRaw m)
    have hadd : PtrBst.add fuel ({ c with mUdpSocket := sock } : PtrClient).store temp
      (MessageFormat.ofRaw m) = .ok s := hs
    refine ⟨_, _, ?_, hsock.setStore hholds hrew, NodeLayout.height_insert_le _ _ _ _⟩
    dsimp only
    rw [if_pos rfl, saveMessage, hadd]
    rfl

theorem startBeforeTcp (h : c.Represents t u spec) (hfuel : t.height < fuel)
    (htemp : c.memory.Fresh temp) (r : ClientRound) :
    ∃ c' t', c.startBeforeTcp fuel temp r = .ok (c', (spec.startBeforeTcp r).2) ∧
      c'.Represents t' u (spec.startBeforeTcp r).1 ∧ t'.height ≤ t.height + 1 := by
  unfold PtrClient.startBeforeTcp Client.startBeforeTcp
  rw [h.udpSocket]
  split_ifs
  all_goals first
    | exact h.recvBeforeTcp hfuel htemp r.padding r.recvResult
    | exact ⟨c, t, rfl, h, Nat.le_succ _⟩

end Represents

end PtrClient

/-! ## The threads -/

/-- A failure of `Threads`, as the code meets it. -/
def PtrStop.ofStop : Stop → PtrStop
  | .blocked => .blocked
  | .fault f => .fault (PtrBst.Represents.ofFault f)

namespace PtrThreads

variable {ι : Type*}

/-- The threads are where those of `spec` are, and have read the same values. -/
structure Represents (s : PtrThreads ι) (t u : NodeLayout) (spec : Threads ι) : Prop where
  client : s.client.Represents t u spec.client
  messageOwner : s.messageOwner = spec.messageOwner
  tcpOwner : s.tcpOwner = spec.tcpOwner
  udp : s.udp = spec.udp
  tcp : s.tcp = spec.tcp

theorem represents_start (socket : Int) (connected inProgress : Bool) :
    (start ι socket connected inProgress).Represents .nil .nil
      (Threads.start ι socket connected inProgress) :=
  ⟨PtrClient.represents_construct socket connected inProgress, rfl, rfl, rfl, rfl⟩

/-- A step ends like that of `spec`, in trees that are at most one level deeper. -/
def Agrees (t u : NodeLayout) : Except PtrStop (PtrThreads ι) → Except Stop (Threads ι) → Prop
  | .ok s, .ok spec => ∃ t' u', s.Represents t' u' spec ∧ t'.height ≤ t.height + 1 ∧
      u'.height ≤ u.height + 1
  | .error stop, .error stop' => stop = .ofStop stop'
  | _, _ => False

namespace Represents

variable {s : PtrThreads ι} {t u : NodeLayout} {spec : Threads ι} {fuel : ℕ} {temp : Ptr}

/-- A step that makes no call on the containers. -/
theorem agrees {s' : PtrThreads ι} {spec' : Threads ι} (h : s'.Represents t u spec') :
    Agrees t u (.ok s') (.ok spec') := ⟨t, u, h, Nat.le_succ _, Nat.le_succ _⟩

theorem tcpStep (h : s.Represents t u spec) (hfuel : u.height < fuel) (res : StreamResult) :
    Agrees t u (s.tcpStep fuel res) (spec.tcpStep res) := by
  have hclient := h.client
  unfold PtrThreads.tcpStep Threads.tcpStep
  rw [h.tcp]
  cases hphase : spec.tcp with
  | outside | woken =>
    dsimp only
    rw [h.tcpOwner]
    split
    · exact agrees ⟨hclient, h.messageOwner, rfl, h.udp, rfl⟩
    · rfl
  | checking =>
    dsimp only
    rw [hclient.queue.empty_eq]
    exact agrees ⟨hclient, h.messageOwner, h.tcpOwner, h.udp, rfl⟩
  | parking => exact agrees ⟨hclient, h.messageOwner, rfl, h.udp, rfl⟩
  | parked wasNotified => exact agrees ⟨hclient, h.messageOwner, h.tcpOwner, h.udp, rfl⟩
  | ready =>
    have hindex : s.client.queue.beginIndex fuel =
        spec.queue.beginIndex.mapError PtrBst.Represents.ofFault :=
      hclient.queue.beginIndex_eq hfuel
    dsimp only
    rw [hindex]
    cases spec.queue.beginIndex with
    | ok index => exact agrees ⟨hclient, h.messageOwner, h.tcpOwner, h.udp, rfl⟩
    | error f => rfl
  | indexed index =>
    have hvalue : s.client.queue.beginValue fuel =
        spec.queue.beginValue.mapError PtrBst.Represents.ofFault :=
      hclient.queue.beginValue_eq hfuel
    dsimp only
    rw [hvalue]
    cases spec.queue.beginValue with
    | ok msg => exact agrees ⟨hclient, h.messageOwner, h.tcpOwner, h.udp, rfl⟩
    | error f => rfl
  | valued index msg =>
    obtain ⟨queue, hqueue, hholds, hrew⟩ := hclient.queue.remove hfuel index
    dsimp only
    rw [hqueue]
    exact ⟨t, _, ⟨hclient.setQueue hholds hrew, h.messageOwner, h.tcpOwner, h.udp, rfl⟩,
      Nat.le_succ _, Nat.le_succ_of_le (NodeLayout.height_deleteNode_le u index)⟩
  | removed msg =>
    dsimp only
    rw [hclient.tcpSocket]
    exact agrees ⟨hclient, h.messageOwner, h.tcpOwner, h.udp, rfl⟩
  | sent outcome => exact agrees ⟨hclient, h.messageOwner, rfl, h.udp, rfl⟩

variable [DecidableEq ι]

theorem setUdp (h : s.Represents t u spec) (i : ι) (phase : UdpPhase) :
    (s.setUdp i phase).Represents t u (spec.setUdp i phase) :=
  ⟨h.client, h.messageOwner, h.tcpOwner,
    congrArg (fun udp : ι → UdpPhase => Function.update udp i phase) h.udp, h.tcp⟩

theorem udpStep (h : s.Represents t u spec) (ht : t.height < fuel) (hu : u.height < fuel)
    (htemp : s.client.memory.Fresh temp) (i : ι) (r : ClientRound) :
    Agrees t u (s.udpStep fuel temp i r) (spec.udpStep i r) := by
  have hclient := h.client
  have hset := fun phase => h.setUdp i phase
  unfold PtrThreads.udpStep Threads.udpStep
  rw [h.udp]
  cases hphase : spec.udp i with
  | outside =>
    dsimp only
    rw [hclient.udpSocket, h.messageOwner]
    split
    · exact agrees ⟨hclient, rfl, h.tcpOwner, (hset _).udp, h.tcp⟩
    · rfl
  | messageLocked =>
    obtain ⟨client, t', hstart, hclient', hheight⟩ := hclient.startBeforeTcp ht htemp r
    dsimp only
    rw [hstart]
    exact ⟨t', u, ⟨hclient', h.messageOwner, h.tcpOwner, (hset _).udp, h.tcp⟩, hheight,
      Nat.le_succ _⟩
  | queueing msg =>
    dsimp only
    rw [h.tcpOwner]
    split
    · exact agrees ⟨hclient, h.messageOwner, rfl, (hset _).udp, h.tcp⟩
    · rfl
  | tcpLocked msg =>
    have hsize : s.client.queue.size = spec.queue.size := hclient.queue.size
    dsimp only
    rw [hsize]
    exact agrees (hset _)
  | sized msg tcpQueueSize =>
    obtain ⟨queue, hqueue, hholds, hrew⟩ := hclient.queue.insert hu htemp tcpQueueSize msg
    dsimp only
    rw [hqueue]
    exact ⟨t, _, ⟨hclient.setQueue hholds hrew, h.messageOwner, h.tcpOwner, (hset _).udp, h.tcp⟩,
      Nat.le_succ _, NodeLayout.height_insert_le _ _ _ _⟩
  | inserted =>
    exact agrees ⟨hclient, h.messageOwner, h.tcpOwner, (hset _).udp,
      congrArg TcpPhase.notify h.tcp⟩
  | notified => exact agrees ⟨hclient, h.messageOwner, rfl, (hset _).udp, h.tcp⟩
  | finished => exact agrees ⟨hclient, rfl, h.tcpOwner, (hset _).udp, h.tcp⟩

theorem step (h : s.Represents t u spec) (ht : t.height < fuel) (hu : u.height < fuel) {e : Event ι}
    (hoffered : s.Offered e) : Agrees t u (s.step fuel e) (spec.step e.1) := by
  obtain ⟨e, temp⟩ := e
  cases e with
  | udp i r => exact h.udpStep ht hu hoffered i r
  | tcp res => exact h.tcpStep hu res

end Represents

variable [DecidableEq ι]

/-- Every run is one of `Threads`. -/
theorem represents_run {fuel : ℕ} {socket : Int} {connected inProgress : Bool}
    {events : List (Event ι)} {s : PtrThreads ι}
    (hrun : Runs fuel (start ι socket connected inProgress) events s)
    (hfuel : events.length ≤ fuel) :
    ∃ spec t u, Run Threads.Step (Threads.start ι socket connected inProgress)
        (events.map Prod.fst) spec ∧ s.Represents t u spec ∧ t.height ≤ events.length ∧
      u.height ≤ events.length := by
  induction hrun with
  | nil => exact ⟨_, .nil, .nil, .nil, represents_start socket connected inProgress, Nat.le_refl 0,
      Nat.le_refl 0⟩
  | @snoc events s s' e _ hlast ih =>
    rw [List.length_append, List.length_singleton] at hfuel ⊢
    obtain ⟨spec, t, u, hspec, hrep, ht, hu⟩ := ih (Nat.le_of_succ_le hfuel)
    have hagrees : Agrees t u (s.step fuel e) (spec.step e.1) :=
      hrep.step (by omega) (by omega) hlast.1
    rw [hlast.2] at hagrees
    cases hstep : spec.step e.1 with
    | error stop => rw [hstep] at hagrees; cases hagrees
    | ok spec' =>
      rw [hstep] at hagrees
      obtain ⟨t', u', hrep', ht', hu'⟩ := hagrees
      rw [List.map_append, List.map_singleton]
      exact ⟨spec', t', u', hspec.snoc hstep, hrep', by omega, by omega⟩

/-- The threads of `Threads` only ever stop for a mutex. -/
theorem blocked_of_error {spec : Threads ι} (hsync : spec.Synchronised) {e : Threads.Event ι}
    {stop : Stop} (h : spec.step e = .error stop) : stop = .blocked := by
  cases e with
  | udp i r =>
    cases stop with
    | blocked => rfl
    | fault f => exact absurd h (spec.udpStep_ne_fault i r f)
  | tcp res =>
    rcases hsync.tcpStep res with hblocked | ⟨t, ht, -⟩
    · rw [← Except.error.inj (hblocked.symm.trans h)]
    · cases ht.symm.trans h

/-- Down to the nodes of the containers every run is one of `Threads`, whatever addresses the
allocator hands out; no thread ever dereferences null or a deleted node, it moves or waits for a
mutex; and the nodes in use are exactly those of the two trees, which share none. -/
theorem receiver_safe {fuel : ℕ} {socket : Int} {connected inProgress : Bool}
    {events : List (Event ι)} {s : PtrThreads ι}
    (hrun : Runs fuel (start ι socket connected inProgress) events s)
    (hfuel : events.length < fuel) :
    ∃ spec, Run Threads.Step (Threads.start ι socket connected inProgress) (events.map Prod.fst) spec ∧
      s.udp = spec.udp ∧ s.tcp = spec.tcp ∧
      (∀ k, s.client.store.atId fuel k =
            (spec.client.mContainer.atId k).mapError PtrBst.Represents.ofFault ∧
          s.client.queue.atId fuel k = (spec.queue.atId k).mapError PtrBst.Represents.ofFault) ∧
      (∀ e, s.Offered e → s.step fuel e = .error .blocked ∧ spec.step e.1 = .error .blocked ∨
          ∃ s' spec', s.step fuel e = .ok s' ∧ spec.step e.1 = .ok spec') ∧
      ∃ stored queued : Finset Ptr, Disjoint stored queued ∧ null ∉ stored ∪ queued ∧
        (∀ q, s.client.memory q ≠ none ↔ q ∈ stored ∪ queued) ∧
        (∀ q ∈ stored, s.client.memory.Reaches s.client.mContainer.mRoot q) ∧
        (∀ q ∈ queued, s.client.memory.Reaches s.client.mContainerTcpQueue.mRoot q) ∧
        stored.card = spec.client.mContainer.mPimpl.contents.length ∧
        queued.card = spec.queue.mPimpl.contents.length := by
  obtain ⟨spec, t, u, hspec, hrep, ht, hu⟩ := represents_run hrun (Nat.le_of_lt hfuel)
  have hdeep : t.height < fuel := by omega
  have hdeep' : u.height < fuel := by omega
  have hclient := hrep.client
  obtain ⟨hnull, hreaches, hcard⟩ := hclient.store.live
  obtain ⟨hnull', hreaches', hcard'⟩ := hclient.queue.live
  refine ⟨spec, hspec, hrep.udp, hrep.tcp,
    fun k => ⟨hclient.store.atId_eq hdeep k, hclient.queue.atId_eq hdeep' k⟩, fun e he => ?_,
    t.ptrs.toFinset, u.ptrs.toFinset, ?_, ?_, fun q => ?_, hreaches, hreaches', hcard, hcard'⟩
  · have hagrees := hrep.step hdeep hdeep' he
    cases hptr : s.step fuel e with
    | ok s' =>
      cases hstep : spec.step e.1 with
      | ok spec' => exact .inr ⟨s', spec', rfl, rfl⟩
      | error stop => rw [hptr, hstep] at hagrees; cases hagrees
    | error stop =>
      cases hstep : spec.step e.1 with
      | ok spec' => rw [hptr, hstep] at hagrees; cases hagrees
      | error stop' =>
        rw [hptr, hstep] at hagrees
        obtain rfl : stop = .ofStop stop' := hagrees
        obtain rfl := blocked_of_error (Threads.synchronised_run hspec) hstep
        exact .inl ⟨rfl, rfl⟩
  · rw [Finset.disjoint_left]
    intro q hq hq'
    exact hclient.apart q (List.mem_toFinset.mp hq) (List.mem_toFinset.mp hq')
  · rw [Finset.mem_union, not_or]
    exact ⟨hnull, hnull'⟩
  · rw [Finset.mem_union, List.mem_toFinset, List.mem_toFinset]
    apply Iff.intro
    · exact hclient.noLeak q
    · rintro (hq | hq)
      · exact hclient.store.owns.stores.ne_none hq
      · exact hclient.queue.owns.stores.ne_none hq

/-- A message is stored at address 11 and queued at 12, and 12 is deleted when it is taken. -/
theorem receiver_safe_ten :
    let pad : Buffer 5 := ⟨[0, 0, 0, 0, 0], rfl⟩
    let u : Threads.Event Unit := .udp () ⟨1, false, false, true,
      .datagram (UDPSocket.bindAddr loopbackAddr recvUdpPort)
        ((makeMessageDiv20 10).toRaw pad).bytes, pad⟩
    let t : Threads.Event Unit := .tcp .error
    let events : List (Event Unit) := [(u, 11), (u, 11), (u, 12), (u, 12), (u, 12), (u, 13), (u, 13),
      (u, 13), (t, 13), (t, 13), (t, 13), (t, 13), (t, 13)]
    ∃ s, Runs 14 (start Unit 3 true false) events s ∧ s.client.memory 11 ≠ none ∧
      s.client.memory 12 = none ∧ ∃ stored queued : Finset Ptr,
        (∀ q, s.client.memory q ≠ none ↔ q ∈ stored ∪ queued) := by
  intro pad u t events
  obtain ⟨s, hrun, hs⟩ := exists_run_of_foldlM (guard Offered (step 14)) (start Unit 3 true false)
    events (fun s => ((s.client.memory 11).isSome, (s.client.memory 12).isSome))
    (b := (true, false)) (by decide +kernel)
  rw [ofExcept_guard] at hrun
  obtain ⟨hin, hout⟩ := Prod.mk.inj hs
  obtain ⟨spec, -, -, -, -, -, stored, queued, -, -, hlive, -⟩ := receiver_safe hrun (by decide)
  have hgone : (s.client.memory 12).isNone = true := by rw [← Option.not_isSome, hout]; rfl
  refine ⟨s, hrun, fun hnone => ?_, Option.isNone_iff_eq_none.mp hgone, stored, queued, hlive⟩
  rw [hnone] at hin
  cases hin

end PtrThreads

end MessageTransmitter
