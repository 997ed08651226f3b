import MessageTransmitter.Library.Transition
import MessageTransmitter.Receiver.Client

/-!
# The receiver's threads

`Client::start` in any number of UDP threads and `Client::sendViaTcpSocket` in one further thread.
A step is what a thread does between two points at which others may interfere: it takes or gives
back a mutex, makes one call on the queue, notifies, checks the predicate of the wait, parks or
wakes up.  Which thread moves next is free.
-/

open Bytes Transition

namespace MessageTransmitter

/-- Where a UDP thread is in `start`. -/
inductive UdpPhase where
  -- at the head of the loop
  | outside
  | messageLocked
  -- the message is saved and has to be queued, `m_mutex_tcp` is not taken yet
  | queueing (msg : MessageFormat)
  | tcpLocked (msg : MessageFormat)
  | sized (msg : MessageFormat) (tcpQueueSize : UInt64)
  -- between `insert` and `notify_one`
  | inserted
  | notified
  -- `m_mutex_tcp` is given back or was not needed
  | finished
  deriving DecidableEq, Repr

/-- Where the TCP thread is in `sendViaTcpSocket`. -/
inductive TcpPhase where
  | outside
  -- in `wait`, about to evaluate the predicate
  | checking
  -- the predicate was false
  | parking
  -- waiting on `m_cv_tcp`, with or without a notification delivered
  | parked (wasNotified : Bool)
  -- woken up, `m_mutex_tcp` has to be taken again
  | woken
  -- `wait` has returned
  | ready
  | indexed (index : UInt64)
  | valued (index : UInt64) (msg : MessageFormat)
  | removed (msg : MessageFormat)
  | sent (outcome : SendOutcome)
  deriving DecidableEq, Repr

/-- The thread is between `messageLock` and the end of the loop body. -/
def UdpPhase.holdsMessage : UdpPhase → Bool
  | outside => false
  | _ => true

/-- The message that the thread has saved and not inserted yet. -/
def UdpPhase.pending : UdpPhase → Option MessageFormat
  | queueing msg | tcpLocked msg | sized msg _ => some msg
  | _ => none

theorem UdpPhase.holdsMessage_of_pending {phase : UdpPhase} (h : phase.pending ≠ none) :
    phase.holdsMessage = true := by
  cases phase with
  | outside => exact absurd rfl h
  | _ => rfl

/-- The thread is in the scope of `lock_tcp`. -/
def UdpPhase.holdsTcp : UdpPhase → Bool
  | tcpLocked _ | sized _ _ | inserted | notified => true
  | _ => false

def TcpPhase.holdsTcp : TcpPhase → Bool
  | outside | parked _ | woken => false
  | _ => true

/-- `notify_one`: nothing happens unless the thread is waiting. -/
def TcpPhase.notify : TcpPhase → TcpPhase
  | parked _ => parked true
  | phase => phase

inductive Thread (ι : Type*) where
  | udp (i : ι)
  | tcp

/-- The client with its mutexes and its threads; `ι` names the UDP threads. -/
structure Threads (ι : Type*) where
  client : Client
  -- the owners of `m_mutex_message` and of `m_mutex_tcp`
  messageOwner : Option ι := none
  tcpOwner : Option (Thread ι) := none
  udp : ι → UdpPhase := fun _ => .outside
  tcp : TcpPhase := .outside

/-- Why a thread does not move: it waits for a mutex or has left its loop, or its call fails. -/
inductive Stop where
  | blocked
  | fault (f : Fault)
  deriving DecidableEq, Repr

namespace Threads

variable {ι : Type*}

def queue (s : Threads ι) : Container := s.client.mContainerTcpQueue

def setQueue (s : Threads ι) (queue : Container) : Threads ι :=
  { s with client := { s.client with mContainerTcpQueue := queue } }

def start (ι : Type*) (socket : Int) (connected inProgress : Bool) : Threads ι where
  client := Client.construct socket connected inProgress

def tcpStep (s : Threads ι) (res : StreamResult) : Except Stop (Threads ι) :=
  match s.tcp with
  | .outside | .woken =>
      if s.tcpOwner.isNone then .ok { s with tcpOwner := some .tcp, tcp := .checking }
      else .error .blocked
  | .checking => .ok { s with tcp := if s.queue.empty then .parking else .ready }
  -- parking gives the mutex back in the same step
  | .parking => .ok { s with tcpOwner := none, tcp := .parked false }
  -- the thread may wake up without a notification as well
  | .parked _ => .ok { s with tcp := .woken }
  | .ready =>
      match s.queue.beginIndex with
      | .ok index => .ok { s with tcp := .indexed index }
      | .error f => .error (.fault f)
  | .indexed index =>
      match s.queue.beginValue with
      | .ok msg => .ok { s with tcp := .valued index msg }
      | .error f => .error (.fault f)
  | .valued index msg => .ok { s.setQueue (s.queue.remove index) with tcp := .removed msg }
  | .removed msg =>
      let badMessageId : Bool := msg.messageId % tcpResendID ≠ 0
      let wasSent := if s.client.mTcpSocket.connected then TCPSocket.sendBytes res else false
      .ok { s with tcp := .sent ⟨msg, badMessageId, wasSent⟩ }
  | .sent _ => .ok { s with tcpOwner := none, tcp := .outside }

variable [DecidableEq ι]

def setUdp (s : Threads ι) (i : ι) (phase : UdpPhase) : Threads ι :=
  { s with udp := Function.update s.udp i phase }

def udpStep (s : Threads ι) (i : ι) (r : ClientRound) : Except Stop (Threads ι) :=
  match s.udp i with
  | .outside =>
      if s.client.mUdpSocket.isOpen && s.messageOwner.isNone then
        .ok { s.setUdp i .messageLocked with messageOwner := some i }
      else .error .blocked
  | .messageLocked =>
      let (client, msg) := s.client.startBeforeTcp r
      .ok { s.setUdp i (msg.elim .finished .queueing) with client := client }
  | .queueing msg =>
      if s.tcpOwner.isNone then .ok { s.setUdp i (.tcpLocked msg) with tcpOwner := some (.udp i) }
      else .error .blocked
  | .tcpLocked msg => .ok (s.setUdp i (.sized msg s.queue.size))
  | .sized msg tcpQueueSize =>
      .ok ((s.setQueue (s.queue.insert tcpQueueSize msg)).setUdp i .inserted)
  | .inserted => .ok { s.setUdp i .notified with tcp := s.tcp.notify }
  | .notified => .ok { s.setUdp i .finished with tcpOwner := none }
  | .finished => .ok { s.setUdp i .outside with messageOwner := none }

inductive Event (ι : Type*) where
  -- a step of a UDP thread, with what the system does in its round
  | udp (i : ι) (r : ClientRound)
  -- a step of the TCP thread, with the result of `send`
  | tcp (res : StreamResult)

def step (s : Threads ι) : Event ι → Except Stop (Threads ι)
  | .udp i r => s.udpStep i r
  | .tcp res => s.tcpStep res

abbrev Step : Threads ι → Event ι → Threads ι → Prop := ofExcept step

@[simp] theorem setUdp_self (s : Threads ι) (i : ι) (phase : UdpPhase) :
    (s.setUdp i phase).udp i = phase := by
  simp [setUdp]

theorem setUdp_of_ne (s : Threads ι) {i j : ι} (h : j ≠ i) (phase : UdpPhase) :
    (s.setUdp i phase).udp j = s.udp j := by
  simp [setUdp, h]

theorem setUdp_congr {s : Threads ι} {i : ι} {phase : UdpPhase} (P : UdpPhase → Bool)
    (h : P phase = P (s.udp i)) (j : ι) :
    P ((s.setUdp i phase).udp j) = true ↔ P (s.udp j) = true := by
  by_cases hj : j = i
  · rw [hj, setUdp_self, h]
  · rw [setUdp_of_ne s hj]

/-- Everything that a step of UDP thread `i` can be. -/
inductive UdpMove (s : Threads ι) (i : ι) (r : ClientRound) : Threads ι → Prop
  | lockMessage (hphase : s.udp i = .outside) (hopen : s.client.mUdpSocket.isOpen = true)
      (hfree : s.messageOwner = none) :
      UdpMove s i r { s.setUdp i .messageLocked with messageOwner := some i }
  | save (hphase : s.udp i = .messageLocked) :
      UdpMove s i r { s.setUdp i ((s.client.startBeforeTcp r).2.elim .finished .queueing) with
        client := (s.client.startBeforeTcp r).1 }
  | lockTcp (msg : MessageFormat) (hphase : s.udp i = .queueing msg) (hfree : s.tcpOwner = none) :
      UdpMove s i r { s.setUdp i (.tcpLocked msg) with tcpOwner := some (.udp i) }
  | size (msg : MessageFormat) (hphase : s.udp i = .tcpLocked msg) :
      UdpMove s i r (s.setUdp i (.sized msg s.queue.size))
  | insert (msg : MessageFormat) (tcpQueueSize : UInt64)
      (hphase : s.udp i = .sized msg tcpQueueSize) :
      UdpMove s i r ((s.setQueue (s.queue.insert tcpQueueSize msg)).setUdp i .inserted)
  | notify (hphase : s.udp i = .inserted) :
      UdpMove s i r { s.setUdp i .notified with tcp := s.tcp.notify }
  | unlockTcp (hphase : s.udp i = .notified) :
      UdpMove s i r { s.setUdp i .finished with tcpOwner := none }
  | unlockMessage (hphase : s.udp i = .finished) :
      UdpMove s i r { s.setUdp i .outside with messageOwner := none }

theorem udpMove_of_step {s t : Threads ι} {i : ι} {r : ClientRound} (h : s.udpStep i r = .ok t) :
    s.UdpMove i r t := by
  cases hphase : s.udp i with
  | outside =>
    simp only [udpStep, hphase] at h
    split at h
    · rename_i henter
      obtain ⟨hopen, hfree⟩ := Bool.and_eq_true_iff.mp henter
      rw [← Except.ok.inj h]
      exact .lockMessage hphase hopen (Option.isNone_iff_eq_none.mp hfree)
    · cases h
  | queueing msg =>
    simp only [udpStep, hphase] at h
    split at h
    · rename_i hfree
      rw [← Except.ok.inj h]
      exact .lockTcp msg hphase (Option.isNone_iff_eq_none.mp hfree)
    · cases h
  | messageLocked =>
    simp only [udpStep, hphase] at h
    exact Except.ok.inj h ▸ .save hphase
  | tcpLocked msg =>
    simp only [udpStep, hphase] at h
    exact Except.ok.inj h ▸ .size msg hphase
  | sized msg tcpQueueSize =>
    simp only [udpStep, hphase] at h
    exact Except.ok.inj h ▸ .insert msg tcpQueueSize hphase
  | inserted =>
    simp only [udpStep, hphase] at h
    exact Except.ok.inj h ▸ .notify hphase
  | notified =>
    simp only [udpStep, hphase] at h
    exact Except.ok.inj h ▸ .unlockTcp hphase
  | finished =>
    simp only [udpStep, hphase] at h
    exact Except.ok.inj h ▸ .unlockMessage hphase

/-- Everything that a step of the TCP thread can be. -/
inductive TcpMove (s : Threads ι) (res : StreamResult) : Threads ι → Prop
  | lock (hphase : s.tcp = .outside ∨ s.tcp = .woken) (hfree : s.tcpOwner = none) :
      TcpMove s res { s with tcpOwner := some .tcp, tcp := .checking }
  | check (hphase : s.tcp = .checking) :
      TcpMove s res { s with tcp := if s.queue.empty then .parking else .ready }
  | park (hphase : s.tcp = .parking) : TcpMove s res { s with tcpOwner := none, tcp := .parked false }
  | wake (wasNotified : Bool) (hphase : s.tcp = .parked wasNotified) :
      TcpMove s res { s with tcp := .woken }
  | index (index : UInt64) (hphase : s.tcp = .ready) (hindex : s.queue.beginIndex = .ok index) :
      TcpMove s res { s with tcp := .indexed index }
  | value (index : UInt64) (msg : MessageFormat) (hphase : s.tcp = .indexed index)
      (hvalue : s.queue.beginValue = .ok msg) : TcpMove s res { s with tcp := .valued index msg }
  | remove (index : UInt64) (msg : MessageFormat) (hphase : s.tcp = .valued index msg) :
      TcpMove s res { s.setQueue (s.queue.remove index) with tcp := .removed msg }
  | send (msg : MessageFormat) (hphase : s.tcp = .removed msg) :
      TcpMove s res { s with
        tcp := .sent
          { msg := msg
            badMessageId := msg.messageId % tcpResendID ≠ 0
            wasSent := if s.client.mTcpSocket.connected then TCPSocket.sendBytes res else false } }
  | unlock (outcome : SendOutcome) (hphase : s.tcp = .sent outcome) :
      TcpMove s res { s with tcpOwner := none, tcp := .outside }

omit [DecidableEq ι] in
theorem tcpMove_of_step {s t : Threads ι} {res : StreamResult} (h : s.tcpStep res = .ok t) :
    s.TcpMove res t := by
  cases hphase : s.tcp with
  | outside =>
    simp only [Threads.tcpStep, hphase] at h
    split at h
    · rename_i hfree
      exact Except.ok.inj h ▸ .lock (.inl hphase) (Option.isNone_iff_eq_none.mp hfree)
    · cases h
  | woken =>
    simp only [Threads.tcpStep, hphase] at h
    split at h
    · rename_i hfree
      exact Except.ok.inj h ▸ .lock (.inr hphase) (Option.isNone_iff_eq_none.mp hfree)
    · cases h
  | checking =>
    simp only [Threads.tcpStep, hphase] at h
    exact Except.ok.inj h ▸ .check hphase
  | parking =>
    simp only [Threads.tcpStep, hphase] at h
    exact Except.ok.inj h ▸ .park hphase
  | parked wasNotified =>
    simp only [Threads.tcpStep, hphase] at h
    exact Except.ok.inj h ▸ .wake wasNotified hphase
  | ready =>
    simp only [Threads.tcpStep, hphase] at h
    split at h
    · rename_i index hindex
      exact Except.ok.inj h ▸ .index index hphase hindex
    · cases h
  | indexed index =>
    simp only [Threads.tcpStep, hphase] at h
    split at h
    · rename_i msg hvalue
      exact Except.ok.inj h ▸ .value index msg hphase hvalue
    · cases h
  | valued index msg =>
    simp only [Threads.tcpStep, hphase] at h
    exact Except.ok.inj h ▸ .remove index msg hphase
  | removed msg =>
    simp only [Threads.tcpStep, hphase] at h
    exact Except.ok.inj h ▸ .send msg hphase
  | sent outcome =>
    simp only [Threads.tcpStep, hphase] at h
    exact Except.ok.inj h ▸ .unlock outcome hphase

end Threads

end MessageTransmitter
