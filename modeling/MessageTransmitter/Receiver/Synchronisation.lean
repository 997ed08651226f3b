import MessageTransmitter.Library.Mutex
import MessageTransmitter.Receiver.Threads

/-!
# What the mutexes guarantee

The invariant of the receiver's threads: each mutex guards its critical section, and what the TCP
thread has learnt about the queue under `m_mutex_tcp` is still true, or will be announced to it.
From it follow that no notification is lost (`no_lost_wakeup`) and that the TCP thread never looks
into an empty queue (`takes_first`).
-/

open Bytes Transition Mutex

namespace MessageTransmitter

/-! ## What the TCP thread knows -/

/-- What the TCP thread has learnt about the queue in its present phase; `announcing` says that a
UDP thread has inserted a message and not notified yet. -/
def TcpPhase.Knows (queue : Container) (announcing : Prop) : TcpPhase → Prop
  | .parking => queue.empty = true
  | .parked false => queue.empty = true ∨ announcing
  | .ready => queue.empty = false
  | .indexed index => queue.empty = false ∧ queue.beginIndex = .ok index
  | .valued index msg => queue.empty = false ∧ queue.beginIndex = .ok index ∧
      queue.beginValue = .ok msg
  | _ => True

namespace TcpPhase

variable {phase : TcpPhase} {queue : Container} {announcing announcing' : Prop}

theorem Knows.mono (h : phase.Knows queue announcing) (himp : announcing → announcing') :
    phase.Knows queue announcing' := by
  cases phase with
  | parked wasNotified =>
    cases wasNotified with
    | true => trivial
    | false => exact h.imp_right himp
  | _ => exact h

/-- Outside the critical section an insertion that is going to be announced takes nothing away. -/
theorem knows_of_announcing (hout : phase.holdsTcp = false) (h : announcing) :
    phase.Knows queue announcing := by
  cases phase with
  | parked wasNotified =>
    cases wasNotified with
    | true => trivial
    | false => exact Or.inr h
  | outside => trivial
  | woken => trivial
  | _ => cases hout

theorem knows_notify (hout : phase.holdsTcp = false) : phase.notify.Knows queue announcing := by
  cases phase with
  | parked wasNotified => trivial
  | outside => trivial
  | woken => trivial
  | _ => cases hout

theorem holdsTcp_notify : phase.notify.holdsTcp = phase.holdsTcp := by
  cases phase <;> rfl

end TcpPhase

namespace Threads

variable {ι : Type*}

def critical (s : Threads ι) : Thread ι → Prop
  | .udp i => (s.udp i).holdsTcp = true
  | .tcp => s.tcp.holdsTcp = true

def Announcing (s : Threads ι) : Prop := ∃ i, s.udp i = .inserted

/-- The mutexes guard their critical sections, the queue is a well-formed store, and what the TCP
thread has learnt about it still holds. -/
structure Synchronised (s : Threads ι) : Prop where
  messages : Guards s.messageOwner fun i => (s.udp i).holdsMessage = true
  tcp : Guards s.tcpOwner s.critical
  valid : s.queue.mPimpl.Valid
  knows : s.tcp.Knows s.queue s.Announcing

theorem synchronised_start (socket : Int) (connected inProgress : Bool) :
    (start ι socket connected inProgress).Synchronised where
  messages := guards_none.mpr fun _ => Bool.false_ne_true
  tcp := guards_none.mpr fun t => by cases t <;> exact Bool.false_ne_true
  valid := BstImpl.valid_empty
  knows := trivial

theorem Synchronised.tcp_outside {s : Threads ι} (h : s.Synchronised) {i : ι}
    (hi : (s.udp i).holdsTcp = true) : s.tcp.holdsTcp = false := by
  rw [← Bool.not_eq_true]
  intro htcp
  have heq := h.tcp.exclusive (t := Thread.udp i) (u := Thread.tcp) hi htcp
  cases heq

/-! ## Steps of the TCP thread -/

theorem Synchronised.moveTcp {s : Threads ι} (h : s.Synchronised) {phase : TcpPhase}
    (htcp : phase.holdsTcp = s.tcp.holdsTcp) (hknows : phase.Knows s.queue s.Announcing) :
    ({ s with tcp := phase } : Threads ι).Synchronised where
  messages := h.messages
  tcp := h.tcp.stay fun u => by
    cases u with
    | udp i => rfl
    | tcp => rw [critical, critical, htcp]
  valid := h.valid
  knows := hknows

theorem critical_tcp_of_ne (s : Threads ι) {u : Thread ι} (h : u ≠ .tcp) (phase : TcpPhase) :
    ({ s with tcp := phase } : Threads ι).critical u ↔ s.critical u := by
  cases u with
  | udp i => rfl
  | tcp => exact absurd rfl h

theorem Synchronised.tcpLock {s : Threads ι} (h : s.Synchronised) (hfree : s.tcpOwner = none) :
    ({ s with tcpOwner := some .tcp, tcp := .checking } : Threads ι).Synchronised where
  messages := h.messages
  tcp := (hfree ▸ h.tcp).acquire (rfl : TcpPhase.checking.holdsTcp = true) fun _ hu =>
    critical_tcp_of_ne s hu .checking
  valid := h.valid
  knows := trivial

theorem Synchronised.tcpUnlock {s : Threads ι} (h : s.Synchronised) {phase : TcpPhase}
    (hin : s.tcp.holdsTcp = true) (hout : phase.holdsTcp = false)
    (hknows : phase.Knows s.queue s.Announcing) :
    ({ s with tcpOwner := none, tcp := phase } : Threads ι).Synchronised where
  messages := h.messages
  tcp := h.tcp.release (t := .tcp) hin (by rw [critical, hout]; exact Bool.false_ne_true)
    fun _ hu => critical_tcp_of_ne s hu phase
  valid := h.valid
  knows := hknows

theorem Synchronised.remove {s : Threads ι} (h : s.Synchronised) {index : UInt64}
    {msg : MessageFormat} (hphase : s.tcp = .valued index msg) :
    ({ s.setQueue (s.queue.remove index) with tcp := .removed msg } : Threads ι).Synchronised where
  messages := h.messages
  tcp := h.tcp.stay fun u => by
    cases u with
    | udp i => rfl
    | tcp => rw [critical, critical, hphase]; rfl
  valid := h.valid.remove index
  knows := trivial

theorem Synchronised.exists_first {s : Threads ι} (h : s.Synchronised)
    (hempty : s.queue.empty = false) :
    ∃ index msg es, s.queue.mPimpl.contents = (index, msg) :: es ∧
      s.queue.beginIndex = .ok index ∧ s.queue.beginValue = .ok msg := by
  obtain ⟨⟨index, msg⟩, es, he⟩ := List.exists_cons_of_ne_nil (h.valid.contents_ne_nil hempty)
  exact ⟨index, msg, es, he, BstImpl.beginIndex_of_cons he, h.valid.beginValue_of_cons he⟩

theorem Synchronised.tcpStep {s : Threads ι} (h : s.Synchronised) (res : StreamResult) :
    s.tcpStep res = .error .blocked ∨ ∃ t, s.tcpStep res = .ok t ∧ t.Synchronised := by
  have hknows := h.knows
  unfold Threads.tcpStep
  cases hphase : s.tcp with
  | outside =>
    dsimp only
    split
    · rename_i hfree
      exact Or.inr ⟨_, rfl, h.tcpLock (Option.isNone_iff_eq_none.mp hfree)⟩
    · exact Or.inl rfl
  | woken =>
    dsimp only
    split
    · rename_i hfree
      exact Or.inr ⟨_, rfl, h.tcpLock (Option.isNone_iff_eq_none.mp hfree)⟩
    · exact Or.inl rfl
  | checking =>
    refine Or.inr ⟨_, rfl, ?_⟩
    cases hempty : s.queue.empty with
    | true => exact h.moveTcp (by rw [hphase]; rfl) hempty
    | false => exact h.moveTcp (by rw [hphase]; rfl) hempty
  | parking =>
    rw [hphase] at hknows
    exact Or.inr ⟨_, rfl, h.tcpUnlock (by rw [hphase]; rfl) rfl (Or.inl hknows)⟩
  | parked wasNotified => exact Or.inr ⟨_, rfl, h.moveTcp (by rw [hphase]; rfl) trivial⟩
  | ready =>
    rw [hphase] at hknows
    obtain ⟨index, msg, es, -, hindex, -⟩ := h.exists_first hknows
    rw [hindex]
    exact Or.inr ⟨_, rfl, h.moveTcp (by rw [hphase]; rfl) ⟨hknows, hindex⟩⟩
  | indexed index =>
    rw [hphase] at hknows
    obtain ⟨-, msg, es, -, -, hvalue⟩ := h.exists_first hknows.1
    rw [hvalue]
    exact Or.inr ⟨_, rfl, h.moveTcp (by rw [hphase]; rfl) ⟨hknows.1, hknows.2, hvalue⟩⟩
  | valued index msg => exact Or.inr ⟨_, rfl, h.remove hphase⟩
  | removed msg => exact Or.inr ⟨_, rfl, h.moveTcp (by rw [hphase]; rfl) trivial⟩
  | sent outcome => exact Or.inr ⟨_, rfl, h.tcpUnlock (by rw [hphase]; rfl) rfl trivial⟩

/-! ## Steps of the UDP threads -/

variable [DecidableEq ι]

theorem critical_setUdp_of_ne (s : Threads ι) {i : ι} {u : Thread ι} (h : u ≠ .udp i)
    (phase : UdpPhase) : (s.setUdp i phase).critical u ↔ s.critical u := by
  cases u with
  | udp j =>
    have hj : j ≠ i := fun heq => h (congrArg Thread.udp heq)
    rw [critical, critical, setUdp_of_ne s hj]
  | tcp => rfl

theorem critical_setUdp {s : Threads ι} {i : ι} {phase : UdpPhase}
    (h : phase.holdsTcp = (s.udp i).holdsTcp) (u : Thread ι) :
    (s.setUdp i phase).critical u ↔ s.critical u := by
  cases u with
  | udp j => exact setUdp_congr UdpPhase.holdsTcp h j
  | tcp => rfl

theorem Announcing.setUdp {s : Threads ι} (h : s.Announcing) {i : ι} (hfrom : s.udp i ≠ .inserted)
    (phase : UdpPhase) : (s.setUdp i phase).Announcing := by
  obtain ⟨j, hj⟩ := h
  have hne : j ≠ i := fun heq => hfrom (heq ▸ hj)
  exact ⟨j, by rw [setUdp_of_ne s hne, hj]⟩

/-- A UDP thread moves on inside or outside both critical sections and leaves the queue alone. -/
theorem Synchronised.move {s : Threads ι} (h : s.Synchronised) {i : ι} {phase : UdpPhase}
    (hmessage : phase.holdsMessage = (s.udp i).holdsMessage)
    (htcp : phase.holdsTcp = (s.udp i).holdsTcp) (hfrom : s.udp i ≠ .inserted) {client : Client}
    (hqueue : client.mContainerTcpQueue = s.queue) :
    ({ s.setUdp i phase with client := client } : Threads ι).Synchronised where
  messages := h.messages.stay (setUdp_congr UdpPhase.holdsMessage hmessage)
  tcp := h.tcp.stay (critical_setUdp htcp)
  valid := by
    rw [queue, hqueue]
    exact h.valid
  knows := by
    rw [queue, hqueue]
    exact h.knows.mono fun ha => ha.setUdp hfrom phase

theorem Synchronised.lockMessage {s : Threads ι} (h : s.Synchronised) {i : ι}
    (hphase : s.udp i = .outside) (hfree : s.messageOwner = none) :
    ({ s.setUdp i .messageLocked with messageOwner := some i } : Threads ι).Synchronised where
  messages := by
    refine (hfree ▸ h.messages).acquire ?_ fun u hu => ?_
    · rw [setUdp_self]
      rfl
    · rw [setUdp_of_ne s hu]
  tcp := h.tcp.stay (critical_setUdp (by rw [hphase]; rfl))
  valid := h.valid
  knows := h.knows.mono fun ha => ha.setUdp (by rw [hphase]; exact UdpPhase.noConfusion) _

theorem Synchronised.unlockMessage {s : Threads ι} (h : s.Synchronised) {i : ι}
    (hphase : s.udp i = .finished) :
    ({ s.setUdp i .outside with messageOwner := none } : Threads ι).Synchronised where
  messages := by
    refine h.messages.release (t := i) (by rw [hphase]; rfl) ?_ fun u hu => ?_
    · rw [setUdp_self]
      exact Bool.false_ne_true
    · rw [setUdp_of_ne s hu]
  tcp := h.tcp.stay (critical_setUdp (by rw [hphase]; rfl))
  valid := h.valid
  knows := h.knows.mono fun ha => ha.setUdp (by rw [hphase]; exact UdpPhase.noConfusion) _

theorem Synchronised.lockTcp {s : Threads ι} (h : s.Synchronised) {i : ι} {msg : MessageFormat}
    (hphase : s.udp i = .queueing msg) (hfree : s.tcpOwner = none) :
    ({ s.setUdp i (.tcpLocked msg) with tcpOwner := some (.udp i) } : Threads ι).Synchronised where
  messages := h.messages.stay (setUdp_congr UdpPhase.holdsMessage (by rw [hphase]; rfl))
  tcp := (hfree ▸ h.tcp).acquire (by rw [critical, setUdp_self]; rfl) fun _ hu =>
    critical_setUdp_of_ne s hu _
  valid := h.valid
  knows := h.knows.mono fun ha => ha.setUdp (by rw [hphase]; exact UdpPhase.noConfusion) _

/-- The insertion is made in the critical section, so the TCP thread is not looking. -/
theorem Synchronised.insert {s : Threads ι} (h : s.Synchronised) {i : ι} {msg : MessageFormat}
    {tcpQueueSize : UInt64} (hphase : s.udp i = .sized msg tcpQueueSize) :
    ((s.setQueue (s.queue.insert tcpQueueSize msg)).setUdp i .inserted).Synchronised where
  messages := h.messages.stay (setUdp_congr (s := s) UdpPhase.holdsMessage (by rw [hphase]; rfl))
  tcp := h.tcp.stay (critical_setUdp (s := s) (by rw [hphase]; rfl))
  valid := h.valid.insert tcpQueueSize msg
  knows := TcpPhase.knows_of_announcing (h.tcp_outside (i := i) (by rw [hphase]; rfl))
    ⟨i, setUdp_self _ i _⟩

theorem Synchronised.notify {s : Threads ι} (h : s.Synchronised) {i : ι}
    (hphase : s.udp i = .inserted) :
    ({ s.setUdp i .notified with tcp := s.tcp.notify } : Threads ι).Synchronised where
  messages := h.messages.stay (setUdp_congr UdpPhase.holdsMessage (by rw [hphase]; rfl))
  tcp := h.tcp.stay fun u => by
    cases u with
    | udp j => exact setUdp_congr UdpPhase.holdsTcp (by rw [hphase]; rfl) j
    | tcp => rw [critical, critical, TcpPhase.holdsTcp_notify]
  valid := h.valid
  knows := TcpPhase.knows_notify (h.tcp_outside (i := i) (by rw [hphase]; rfl))

theorem Synchronised.unlockTcp {s : Threads ι} (h : s.Synchronised) {i : ι}
    (hphase : s.udp i = .notified) :
    ({ s.setUdp i .finished with tcpOwner := none } : Threads ι).Synchronised where
  messages := h.messages.stay (setUdp_congr UdpPhase.holdsMessage (by rw [hphase]; rfl))
  tcp := by
    refine h.tcp.release (t := .udp i) (by rw [critical, hphase]; rfl) ?_ fun u hu =>
      critical_setUdp_of_ne s hu _
    rw [critical, setUdp_self]
    exact Bool.false_ne_true
  valid := h.valid
  knows := h.knows.mono fun ha => ha.setUdp (by rw [hphase]; exact UdpPhase.noConfusion) _

theorem Synchronised.udpStep {s t : Threads ι} (h : s.Synchronised) {i : ι} {r : ClientRound}
    (hstep : s.udpStep i r = .ok t) : t.Synchronised := by
  cases udpMove_of_step hstep with
  | lockMessage hphase _ hfree => exact h.lockMessage hphase hfree
  | save hphase =>
    -- the round goes on with or without a message for the queue
    have hnext : ∀ msg : Option MessageFormat,
        (msg.elim .finished .queueing : UdpPhase).holdsMessage = true ∧
          (msg.elim .finished .queueing : UdpPhase).holdsTcp = false := fun msg => by
      cases msg <;> exact ⟨rfl, rfl⟩
    refine h.move ?_ ?_ ?_ (Client.startBeforeTcp_queue _ r)
    · rw [hphase, (hnext _).1]
      rfl
    · rw [hphase, (hnext _).2]
      rfl
    · rw [hphase]
      exact UdpPhase.noConfusion
  | lockTcp msg hphase hfree => exact h.lockTcp hphase hfree
  | size msg hphase =>
    exact h.move (by rw [hphase]; rfl) (by rw [hphase]; rfl)
      (by rw [hphase]; exact UdpPhase.noConfusion) rfl
  | insert msg tcpQueueSize hphase => exact h.insert hphase
  | notify hphase => exact h.notify hphase
  | unlockTcp hphase => exact h.unlockTcp hphase
  | unlockMessage hphase => exact h.unlockMessage hphase

omit [DecidableEq ι] in
theorem Synchronised.pending_of_ne {s : Threads ι} (h : s.Synchronised) {i j : ι}
    (hi : (s.udp i).holdsMessage = true) (hj : j ≠ i) : (s.udp j).pending = none := by
  by_contra hpending
  have hin := UdpPhase.holdsMessage_of_pending hpending
  exact hj (h.messages.exclusive hin hi)

theorem Synchronised.setUdp_pending {s : Threads ι} (h : s.Synchronised) {i : ι}
    (hi : (s.udp i).holdsMessage = true) (phase : UdpPhase) (j : ι) (hj : j ≠ i) :
    ((s.setUdp i phase).udp j).pending = none := by
  rw [setUdp_of_ne s hj, h.pending_of_ne hi hj]

/-! ## Runs -/

theorem Synchronised.step {s t : Threads ι} {e : Event ι} (h : s.Synchronised) (hstep : Step s e t) :
    t.Synchronised := by
  cases e with
  | udp i r => exact h.udpStep hstep
  | tcp res =>
    rcases h.tcpStep res with hblocked | ⟨u, hu, hsync⟩
    · cases hblocked.symm.trans hstep
    · rwa [← Except.ok.inj (hu.symm.trans hstep)]

theorem synchronised_run {socket : Int} {connected inProgress : Bool} {events : List (Event ι)}
    {s : Threads ι} (hrun : Run Step (start ι socket connected inProgress) events s) :
    s.Synchronised :=
  hrun.invariant Synchronised (synchronised_start socket connected inProgress) Synchronised.step

theorem udpStep_ne_fault (s : Threads ι) (i : ι) (r : ClientRound) (f : Fault) :
    s.udpStep i r ≠ .error (.fault f) := by
  unfold Threads.udpStep
  split
  all_goals try split
  all_goals simp

/-! ## No notification is lost -/

/-- Whenever the TCP thread is parked and has not been notified, there is nothing to forward, or a
UDP thread is about to notify it. -/
theorem no_lost_wakeup {socket : Int} {connected inProgress : Bool} {events : List (Event ι)}
    {s : Threads ι} (hrun : Run Step (start ι socket connected inProgress) events s)
    (hparked : s.tcp = .parked false) :
    s.queue.empty = true ∨ ∃ i, s.tcpOwner = some (.udp i) ∧ s.udp i = .inserted := by
  have hsync := synchronised_run hrun
  have hknows := hsync.knows
  rw [hparked] at hknows
  rcases hknows with hempty | ⟨i, hi⟩
  · exact Or.inl hempty
  · -- a thread that has just inserted is still in its critical section
    exact Or.inr ⟨i, (hsync.tcp (.udp i)).mpr (by rw [critical, hi]; rfl), hi⟩

theorem no_lost_wakeup_inserted :
    let pad : Buffer 5 := ⟨[0, 0, 0, 0, 0], rfl⟩
    let r : ClientRound :=
      { selected := 1, readySend := true, sendAccepted := true, readyRecv := true, padding := pad
        recvResult := .datagram (UDPSocket.bindAddr loopbackAddr recvUdpPort)
          ((makeMessageWithId 10).toRaw pad).bytes }
    let events : List (Event Bool) := [.tcp .error, .tcp .error, .tcp .error, .udp true r,
      .udp true r, .udp true r, .udp true r, .udp true r]
    ∃ s, Run Step (start Bool 3 true false) events s ∧ s.tcp = .parked false ∧
      s.queue.empty = false ∧ ∃ i, s.tcpOwner = some (.udp i) ∧ s.udp i = .inserted := by
  intro pad r events
  obtain ⟨s, hrun, hs⟩ := exists_run_of_foldlM step (start Bool 3 true false) events
    (fun s => (s.tcp, s.queue.empty)) (b := (.parked false, false)) (by decide +kernel)
  obtain ⟨hparked, hempty⟩ := Prod.mk.inj hs
  refine ⟨s, hrun, hparked, hempty, ?_⟩
  exact (no_lost_wakeup hrun hparked).resolve_left (by rw [hempty]; exact Bool.false_ne_true)

/-! ## The queue is never empty when it is read -/

/-- The queue has a root, and `index` is the least index in it. -/
def FirstIs (queue : Container) (index : UInt64) : Prop :=
  queue.mPimpl.mRoot ≠ .nullptr ∧ queue.beginIndex = .ok index ∧
    IsLeast {k | queue.contains k = true} index

omit [DecidableEq ι] in
theorem Synchronised.firstIs {s : Threads ι} (h : s.Synchronised) (hempty : s.queue.empty = false)
    {index : UInt64} (hindex : s.queue.beginIndex = .ok index) :
    FirstIs s.queue index ∧ ∃ msg, s.queue.atId index = .ok msg ∧ s.queue.beginValue = .ok msg := by
  obtain ⟨index', msg, es, he, hindex', hvalue⟩ := h.exists_first hempty
  obtain rfl : index' = index := Except.ok.inj (hindex'.symm.trans hindex)
  have hroot : s.queue.mPimpl.mRoot ≠ .nullptr := fun hnull => by
    rw [BstImpl.contents, hnull] at he
    cases he
  have hleast : IsLeast {k | s.queue.contains k = true} index' := by
    apply And.intro
    · exact h.valid.contains_iff.mpr (SortedAssoc.mem_keys.mpr ⟨msg, he ▸ List.mem_cons_self⟩)
    · intro k hk
      exact (he ▸ h.valid.sorted).head_le (he ▸ h.valid.contains_iff.mp hk)
  exact ⟨⟨hroot, hindex, hleast⟩, msg, h.valid.atId_ok_iff.mpr (he ▸ List.mem_cons_self), hvalue⟩

end Threads

end MessageTransmitter
