import MessageTransmitter.Library.Fairness
import MessageTransmitter.Receiver.Synchronisation

/-!
# What the receiver's threads get done

`Synchronisation` says what the threads never do.  Here is what they do in the end: nobody waits for
a thread that cannot move, a queue with messages is served, and a message to be queued is queued.
The scheduler has to be fair to the TCP thread and to the thread that holds `m_mutex_tcp`; wake-ups
without a notification may happen but nothing depends on them.
-/

open Bytes Transition Mutex SortedAssoc

namespace MessageTransmitter

/-- How many steps a thread is from `notified`, the last phase of its critical section. -/
def UdpPhase.remaining : UdpPhase → ℕ
  | tcpLocked _ => 3
  | sized _ _ => 2
  | inserted => 1
  | _ => 0

/-- `lock_tcp` is taken in the scope of `messageLock`. -/
theorem UdpPhase.holdsMessage_of_holdsTcp {phase : UdpPhase} (h : phase.holdsTcp = true) :
    phase.holdsMessage = true := by
  cases phase with
  | outside => cases h
  | _ => rfl

/-- How many phases a thread that finds a message in the queue is from its removal. -/
def TcpPhase.remaining : TcpPhase → ℕ
  | removed _ => 7
  | sent _ => 6
  | parked _ => 6
  | outside | woken => 5
  | checking => 4
  | ready => 3
  | indexed _ => 2
  | valued _ _ => 1
  | parking => 0

/-- How many steps the TCP thread is at most from giving the mutex back. -/
def TcpPhase.inside : TcpPhase → ℕ
  | checking => 6
  | ready => 5
  | indexed _ => 4
  | valued _ _ => 3
  | removed _ => 2
  | sent _ | parking => 1
  | outside | parked _ | woken => 0

namespace Threads

variable {ι : Type*}

def Event.isTcp : Event ι → Prop
  | .tcp _ => True
  | .udp _ _ => False

def Event.isUdp (i : ι) : Event ι → Prop
  | .udp j _ => j = i
  | .tcp _ => False

/-- The TCP thread can move, and not only by a wake-up without notification. -/
def TcpEnabled (s : Threads ι) : Prop :=
  match s.tcp with
  | .outside | .woken => s.tcpOwner = none
  | .parked wasNotified => wasNotified = true
  | _ => True

variable [DecidableEq ι]

/-- The scheduler lets the thread in the scope of `lock_tcp` go on, and the TCP thread move again
and again if it can. -/
structure Fair (x : Execution (Step (ι := ι))) : Prop where
  critical : ∀ i, x.WeaklyFair (fun s => (s.udp i).holdsTcp = true) (Event.isUdp i)
  tcp : x.StronglyFair TcpEnabled Event.isTcp

theorem Fair.drop {x : Execution (Step (ι := ι))} (h : Fair x) (n : ℕ) : Fair (x.drop n) :=
  ⟨fun i => (h.critical i).drop n, h.tcp.drop n⟩

/-! ## The critical section of a UDP thread -/

theorem step_udp_eq {s t : Threads ι} {e : Event ι} {i : ι} (h : Step s e t)
    (hother : ¬ e.isUdp i) : t.udp i = s.udp i := by
  cases e with
  | udp j r =>
    have hne : i ≠ j := fun heq => hother heq.symm
    cases udpMove_of_step h with
    | lockMessage | save | lockTcp | size | insert | notify | unlockTcp | unlockMessage =>
      exact setUdp_of_ne _ hne _
  | tcp res =>
    cases tcpMove_of_step h with
    | lock | check | park | wake | index | value | remove | send | unlock => rfl

/-- In its critical section a thread goes on step by step until it gives the mutex back. -/
theorem udpStep_critical {s t : Threads ι} {i : ι} {r : ClientRound} (h : s.udpStep i r = .ok t)
    (hin : (s.udp i).holdsTcp = true) :
    s.udp i = .notified ∧ t.tcpOwner = none ∨
      s.udp i ≠ .notified ∧ (t.udp i).holdsTcp = true ∧
        (t.udp i).remaining < (s.udp i).remaining := by
  cases udpMove_of_step h with
  | lockMessage hphase | save hphase | lockTcp _ hphase | unlockMessage hphase =>
    rw [hphase] at hin
    cases hin
  | size msg hphase =>
    rw [setUdp_self, hphase]
    exact .inr ⟨UdpPhase.noConfusion, rfl, Nat.lt_succ_self _⟩
  | insert msg tcpQueueSize hphase =>
    rw [setUdp_self, hphase]
    exact .inr ⟨UdpPhase.noConfusion, rfl, Nat.lt_succ_self _⟩
  | notify hphase =>
    have hnext : ({ s.setUdp i .notified with tcp := s.tcp.notify } : Threads ι).udp i = .notified :=
      setUdp_self s i .notified
    rw [hnext, hphase]
    exact .inr ⟨UdpPhase.noConfusion, rfl, Nat.lt_succ_self _⟩
  | unlockTcp hphase => exact .inl ⟨hphase, rfl⟩

theorem udpStep_of_isUdp {s t : Threads ι} {e : Event ι} {i : ι} (h : Step s e t)
    (hown : e.isUdp i) : ∃ r, s.udpStep i r = .ok t := by
  cases e with
  | udp j r => exact ⟨r, hown ▸ h⟩
  | tcp res => cases hown

/-- A thread in its critical section leaves it. -/
theorem exists_unlockTcp {x : Execution (Step (ι := ι))} (hfair : Fair x) {i : ι}
    (hin : ((x.state 0).udp i).holdsTcp = true) : ∃ n, (x.state n).tcpOwner = none := by
  obtain ⟨n, hphase, hown⟩ := (hfair.critical i).exists_of_variant
    (fun s e => s.udp i = .notified ∧ e.isUdp i) (fun s => (s.udp i).remaining) hin
    fun n hin hnot => by
      by_cases hown : (x.label n).isUdp i
      · obtain ⟨r, hstep⟩ := udpStep_of_isUdp (x.next n) hown
        rcases udpStep_critical hstep hin with ⟨hphase, -⟩ | ⟨-, hkeep, hless⟩
        · exact absurd ⟨hphase, hown⟩ hnot
        · exact ⟨hkeep, Nat.le_of_lt hless, fun _ => hless⟩
      · rw [step_udp_eq (x.next n) hown]
        exact ⟨hin, Nat.le_refl _, fun h => absurd h hown⟩
  obtain ⟨r, hstep⟩ := udpStep_of_isUdp (x.next n) hown
  rcases udpStep_critical hstep (by rw [hphase]; rfl) with ⟨-, hfree⟩ | ⟨hne, -⟩
  · exact ⟨n + 1, hfree⟩
  · exact absurd hphase hne

/-! ## The TCP thread -/

omit [DecidableEq ι] in
theorem Synchronised.tcpEnabled {s : Threads ι} (h : s.Synchronised)
    (hwaiting : s.queue.empty = false) (howner : ∀ i, s.tcpOwner ≠ some (.udp i)) :
    s.TcpEnabled := by
  have hfree : s.tcp.holdsTcp = false → s.tcpOwner = none := fun hout => by
    cases hs : s.tcpOwner with
    | none => rfl
    | some u =>
      have hcritical := (h.tcp u).mp hs
      cases u with
      | udp i => exact absurd hs (howner i)
      | tcp =>
        rw [critical, hout] at hcritical
        cases hcritical
  have hknows := h.knows
  unfold TcpEnabled
  cases hphase : s.tcp with
  | outside => exact hfree (by rw [hphase]; rfl)
  | woken => exact hfree (by rw [hphase]; rfl)
  | parked wasNotified =>
    cases wasNotified with
    | true => rfl
    | false =>
      -- the thread that is going to notify it holds the mutex
      rw [hphase] at hknows
      rcases hknows with hempty | ⟨i, hi⟩
      · rw [hwaiting] at hempty
        cases hempty
      · exact absurd ((h.tcp (.udp i)).mpr (by rw [critical, hi]; rfl)) (howner i)
  | _ => trivial

omit [DecidableEq ι] in
/-- With a message in the queue each step of the TCP thread brings the removal nearer. -/
theorem TcpMove.remaining {s t : Threads ι} {res : StreamResult} (h : s.TcpMove res t) (hsync : s.Synchronised)
    (hwaiting : s.queue.empty = false) (hnot : ∀ index msg, s.tcp ≠ .valued index msg) :
    t.tcp.remaining < s.tcp.remaining := by
  cases h with
  | lock hphase _ =>
    rcases hphase with hphase | hphase
    · rw [hphase]
      exact Nat.lt_succ_self _
    · rw [hphase]
      exact Nat.lt_succ_self _
  | check hphase =>
    rw [hphase, hwaiting]
    exact Nat.lt_succ_self _
  | park hphase =>
    have hknows := hsync.knows
    rw [hphase, TcpPhase.Knows, hwaiting] at hknows
    cases hknows
  | wake wasNotified hphase =>
    rw [hphase]
    exact Nat.lt_succ_self _
  | index index hphase _ =>
    rw [hphase]
    exact Nat.lt_succ_self _
  | value index msg hphase _ =>
    rw [hphase]
    exact Nat.lt_succ_self _
  | remove index msg hphase => exact absurd hphase (hnot index msg)
  | send msg hphase =>
    rw [hphase]
    exact Nat.lt_succ_self _
  | unlock outcome hphase =>
    rw [hphase]
    exact Nat.lt_succ_self _

theorem udpStep_remaining {s t : Threads ι} {i : ι} {r : ClientRound} (h : s.udpStep i r = .ok t) :
    t.tcp.remaining = s.tcp.remaining := by
  cases udpMove_of_step h with
  | notify hphase =>
    show s.tcp.notify.remaining = s.tcp.remaining
    cases s.tcp <;> rfl
  | lockMessage | save | lockTcp | size | insert | unlockTcp | unlockMessage => rfl

/-- Only the TCP thread takes messages out of the queue. -/
theorem step_contents {s t : Threads ι} {e : Event ι} (hsync : s.Synchronised) (h : Step s e t)
    (hne : s.queue.mPimpl.contents ≠ [])
    (hnot : ¬ ((∃ index msg, s.tcp = .valued index msg) ∧ e.isTcp)) :
    t.queue.mPimpl.contents ≠ [] := by
  cases e with
  | udp i r =>
    cases udpMove_of_step h with
    | save hphase =>
      show ((s.client.startBeforeTcp r).1.mContainerTcpQueue).mPimpl.contents ≠ []
      rw [Client.startBeforeTcp_queue]
      exact hne
    | insert msg tcpQueueSize hphase =>
      show (s.queue.mPimpl.insert tcpQueueSize msg).contents ≠ []
      intro hempty
      have hkeys := keys_eq_empty_iff.mpr hempty
      rw [hsync.valid.keys_insert] at hkeys
      exact hne (keys_eq_empty_iff.mp (Finset.union_eq_empty.mp hkeys).1)
    | lockMessage | lockTcp | size | notify | unlockTcp | unlockMessage => exact hne
  | tcp res =>
    cases tcpMove_of_step h with
    | remove index msg hphase => exact absurd ⟨⟨index, msg, hphase⟩, trivial⟩ hnot
    | lock | check | park | wake | index | value | send | unlock => exact hne

/-- As long as messages wait, the TCP thread can move again and again. -/
theorem recurs_tcpEnabled {x : Execution (Step (ι := ι))} (hfair : Fair x)
    (hsync : ∀ n, (x.state n).Synchronised) (hwaiting : ∀ n, (x.state n).queue.empty = false) :
    Execution.Recurs fun n => (x.state n).TcpEnabled := by
  intro n
  by_cases howner : ∃ i, (x.state n).tcpOwner = some (.udp i)
  · obtain ⟨i, hi⟩ := howner
    have hin : ((x.state n).udp i).holdsTcp = true := ((hsync n).tcp (.udp i)).mp hi
    obtain ⟨m, hfree⟩ := exists_unlockTcp (hfair.drop n) hin
    refine ⟨n + m, Nat.le_add_right n m, (hsync _).tcpEnabled (hwaiting _) fun j hj => ?_⟩
    rw [show (x.state (n + m)).tcpOwner = none from hfree] at hj
    cases hj
  · rw [not_exists] at howner
    exact ⟨n, Nat.le_refl n, (hsync n).tcpEnabled (hwaiting n) howner⟩

theorem exists_removal {x : Execution (Step (ι := ι))} (hfair : Fair x)
    (hsync : ∀ n, (x.state n).Synchronised)
    (hmemory : ∀ n, (x.state n).queue.mPimpl.contents.length < 2 ^ 64)
    (hne : (x.state 0).queue.mPimpl.contents ≠ []) :
    ∃ n, (∃ index msg, (x.state n).tcp = .valued index msg) ∧ (x.label n).isTcp := by
  by_contra hnever
  rw [not_exists] at hnever
  -- without a removal the queue is never empty again
  have hkept : ∀ n, (x.state n).queue.mPimpl.contents ≠ [] := fun n => by
    induction n with
    | zero => exact hne
    | succ n ih => exact step_contents (hsync n) (x.next n) ih (hnever n)
  have hwaiting : ∀ n, (x.state n).queue.empty = false := fun n =>
    (hsync n).valid.empty_eq_false (hmemory n) (List.length_pos_of_ne_nil (hkept n))
  have hacts := hfair.tcp (recurs_tcpEnabled hfair hsync hwaiting)
  have htcp : ∀ n, (x.label n).isTcp →
      (x.state (n + 1)).tcp.remaining < (x.state n).tcp.remaining := fun n hown => by
    have hstep := x.next n
    have hnot := hnever n
    cases hlabel : x.label n with
    | udp i r =>
      rw [hlabel] at hown
      cases hown
    | tcp res =>
      rw [hlabel] at hstep hnot
      exact (tcpMove_of_step hstep).remaining (hsync n) (hwaiting n) fun index msg hphase =>
        hnot ⟨⟨index, msg, hphase⟩, trivial⟩
  have hudp : ∀ n, ¬ (x.label n).isTcp →
      (x.state (n + 1)).tcp.remaining = (x.state n).tcp.remaining := fun n hother => by
    have hstep := x.next n
    cases hlabel : x.label n with
    | udp i r =>
      rw [hlabel] at hstep
      exact udpStep_remaining hstep
    | tcp res =>
      rw [hlabel] at hother
      exact absurd trivial hother
  obtain ⟨n, hn⟩ := x.exists_of_variant (fun _ _ => False) (fun s => s.tcp.remaining) hacts
    (fun n _ => by
      by_cases hown : (x.label n).isTcp
      · exact Nat.le_of_lt (htcp n hown)
      · exact Nat.le_of_eq (hudp n hown))
    fun n _ hown => htcp n hown
  exact hn

theorem step_of_valued {s t : Threads ι} {e : Event ι} (h : Step s e t) (hown : e.isTcp)
    {index : UInt64} {msg : MessageFormat} (hphase : s.tcp = .valued index msg) :
    t.tcp = .removed msg ∧ t.queue = s.queue.remove index := by
  cases e with
  | udp i r => cases hown
  | tcp res =>
    change s.tcpStep res = .ok t at h
    simp only [Threads.tcpStep, hphase] at h
    rw [← Except.ok.inj h]
    exact ⟨rfl, rfl⟩

theorem synchronised_always {x : Execution (Step (ι := ι))} {socket : Int}
    {connected inProgress : Bool} (hstart : x.state 0 = start ι socket connected inProgress) :
    ∀ n, (x.state n).Synchronised :=
  x.always (hstart ▸ synchronised_start socket connected inProgress) Synchronised.step

/-- Whenever there is something to forward, the TCP thread takes the first message out of the queue,
as long as the queue is too short for its size to wrap. -/
theorem queue_served {x : Execution (Step (ι := ι))} {socket : Int} {connected inProgress : Bool}
    (hstart : x.state 0 = start ι socket connected inProgress) (hfair : Fair x)
    (hmemory : ∀ n, (x.state n).queue.mPimpl.contents.length < 2 ^ 64) {n : ℕ}
    (hwaiting : (x.state n).queue.empty = false) :
    ∃ m, n ≤ m ∧ ∃ index msg, FirstIs (x.state m).queue index ∧
      (x.state m).queue.atId index = .ok msg ∧ (x.state m).tcp = .valued index msg ∧
      (x.state (m + 1)).tcp = .removed msg ∧
      (x.state (m + 1)).queue = (x.state m).queue.remove index := by
  have hsync := synchronised_always hstart
  have hne := (hsync n).valid.contents_ne_nil hwaiting
  obtain ⟨k, ⟨index, msg, hphase⟩, hown⟩ := exists_removal (x := x.drop n) (hfair.drop n)
    (fun m => hsync (n + m)) (fun m => hmemory (n + m)) hne
  refine ⟨n + k, Nat.le_add_right n k, index, msg, ?_⟩
  have hphase' : (x.state (n + k)).tcp = .valued index msg := hphase
  have hknows := (hsync (n + k)).knows
  rw [hphase'] at hknows
  obtain ⟨hempty, hindex, hvalue⟩ := hknows
  obtain ⟨hfirst, msg', hat, hvalue'⟩ := (hsync (n + k)).firstIs hempty hindex
  obtain rfl : msg' = msg := Except.ok.inj (hvalue'.symm.trans hvalue)
  exact ⟨hfirst, hat, hphase', step_of_valued (x.next (n + k)) hown hphase'⟩

/-- A step puts at most one message into the queue. -/
theorem step_queue_length {s t : Threads ι} {e : Event ι} (hvalid : s.queue.mPimpl.Valid)
    (h : Step s e t) : t.queue.mPimpl.Valid ∧
      t.queue.mPimpl.contents.length ≤ s.queue.mPimpl.contents.length + 1 := by
  have hsame : ∀ u : Threads ι, u.queue = s.queue → u.queue.mPimpl.Valid ∧
      u.queue.mPimpl.contents.length ≤ s.queue.mPimpl.contents.length + 1 := fun u hu => by
    rw [hu]
    exact ⟨hvalid, Nat.le_succ _⟩
  cases e with
  | udp i r =>
    cases udpMove_of_step h with
    | save hphase => exact hsame _ (Client.startBeforeTcp_queue s.client r)
    | insert msg tcpQueueSize hphase =>
      refine ⟨hvalid.insert tcpQueueSize msg, ?_⟩
      show (s.queue.mPimpl.insert tcpQueueSize msg).contents.length ≤ _
      rw [← (hvalid.insert tcpQueueSize msg).sorted.card_keys, hvalid.contents_insert,
        hvalid.sorted.keys_insertNew, ← hvalid.sorted.card_keys]
      exact Finset.card_union_le _ _
    | lockMessage | lockTcp | size | notify | unlockTcp | unlockMessage => exact hsame _ rfl
  | tcp res =>
    cases tcpMove_of_step h with
    | remove index msg hphase =>
      refine ⟨hvalid.remove index, Nat.le_succ_of_le ?_⟩
      show (s.queue.mPimpl.remove index).contents.length ≤ _
      rw [← (hvalid.remove index).sorted.card_keys, hvalid.keys_remove, ← hvalid.sorted.card_keys]
      exact Finset.card_le_card Finset.sdiff_subset
    | lock | check | park | wake | index | value | send | unlock => exact hsame _ rfl

/-! ## Draining -/

/-- Without insertions a step only ever removes the first entry. -/
theorem step_length {s t : Threads ι} {e : Event ι} (hsync : s.Synchronised) (h : Step s e t)
    (hquiet : ∀ i msg tcpQueueSize, s.udp i = .sized msg tcpQueueSize → ¬ e.isUdp i) :
    t.queue.mPimpl.contents.length ≤ s.queue.mPimpl.contents.length ∧
      ((∃ index msg, s.tcp = .valued index msg) → e.isTcp →
        t.queue.mPimpl.contents.length < s.queue.mPimpl.contents.length) := by
  cases e with
  | udp i r =>
    refine ⟨?_, fun _ hown => absurd hown id⟩
    cases udpMove_of_step h with
    | save hphase =>
      show ((s.client.startBeforeTcp r).1.mContainerTcpQueue).mPimpl.contents.length ≤ _
      rw [Client.startBeforeTcp_queue]
      exact Nat.le_refl _
    | insert msg tcpQueueSize hphase => exact absurd rfl (hquiet i msg tcpQueueSize hphase)
    | lockMessage | lockTcp | size | notify | unlockTcp | unlockMessage => exact Nat.le_refl _
  | tcp res =>
    cases tcpMove_of_step h with
    | remove index msg hphase =>
      have hknows := hsync.knows
      rw [hphase] at hknows
      obtain ⟨hempty, hindex, -⟩ := hknows
      obtain ⟨index', msg', es, he, hindex', -⟩ := hsync.exists_first hempty
      obtain rfl : index' = index := Except.ok.inj (hindex'.symm.trans hindex)
      have hfront : (s.queue.mPimpl.remove index').contents = es :=
        hsync.valid.contents_remove_front he
      have hless : (s.queue.mPimpl.remove index').contents.length <
          s.queue.mPimpl.contents.length := by
        rw [hfront, he, List.length_cons]
        exact Nat.lt_succ_self _
      exact ⟨Nat.le_of_lt hless, fun _ _ => hless⟩
    | lock hphase =>
      refine ⟨Nat.le_refl _, fun hvalued _ => ?_⟩
      obtain ⟨index, msg, hvalued⟩ := hvalued
      rw [hvalued] at hphase
      rcases hphase with hphase | hphase
      · cases hphase
      · cases hphase
    | check hphase | park hphase | wake _ hphase | index _ hphase _ | value _ _ hphase _
    | send _ hphase | unlock _ hphase =>
      refine ⟨Nat.le_refl _, fun hvalued _ => ?_⟩
      obtain ⟨index, msg, hvalued⟩ := hvalued
      rw [hvalued] at hphase
      cases hphase

/-- Once the UDP threads insert nothing any more, the queue runs empty and stays empty; its size never
wraps. -/
theorem queue_drained {x : Execution (Step (ι := ι))} {socket : Int} {connected inProgress : Bool}
    (hstart : x.state 0 = start ι socket connected inProgress) (hfair : Fair x)
    (hmemory : ∀ n, (x.state n).queue.mPimpl.contents.length < 2 ^ 64) {n : ℕ}
    (hquiet : ∀ m, n ≤ m → ∀ i msg tcpQueueSize, (x.state m).udp i = .sized msg tcpQueueSize →
      ¬ (x.label m).isUdp i) :
    ∃ m, n ≤ m ∧ ∀ k, m ≤ k → (x.state k).queue.empty = true := by
  have hsync := synchronised_always hstart
  have hstep : ∀ m, n ≤ m → _ := fun m hm => step_length (hsync m) (x.next m) (hquiet m hm)
  have hmono : ∀ m k, n ≤ m → (x.state (m + k)).queue.mPimpl.contents.length ≤
      (x.state m).queue.mPimpl.contents.length := fun m k hm => by
    induction k with
    | zero => exact Nat.le_refl _
    | succ k ih => exact Nat.le_trans (hstep (m + k) (by omega)).1 ih
  -- a removal after another, by induction on what is left
  have hdown : ∀ l m, n ≤ m → (x.state m).queue.mPimpl.contents.length ≤ l →
      ∃ k, m ≤ k ∧ (x.state k).queue.mPimpl.contents = [] := fun l => by
    induction l with
    | zero => exact fun m _ hl => ⟨m, Nat.le_refl m, List.length_eq_zero_iff.mp (Nat.le_zero.mp hl)⟩
    | succ l ih =>
      intro m hm hl
      by_cases hempty : (x.state m).queue.mPimpl.contents = []
      · exact ⟨m, Nat.le_refl m, hempty⟩
      · obtain ⟨k, hvalued, hown⟩ := exists_removal (x := x.drop m) (hfair.drop m)
          (fun k => hsync (m + k)) (fun k => hmemory (m + k)) hempty
        have hless := (hstep (m + k) (by omega)).2 hvalued hown
        have hle := hmono m k hm
        obtain ⟨k', hk', hnil⟩ := ih (m + k + 1) (by omega) (by omega)
        exact ⟨k', by omega, hnil⟩
  obtain ⟨m, hm, hnil⟩ := hdown _ n (Nat.le_refl n) (Nat.le_refl _)
  refine ⟨m, hm, fun k hk => ?_⟩
  have hle := hmono m (k - m) hm
  rw [Nat.add_sub_cancel' hk, hnil] at hle
  have hkempty := List.length_eq_zero_iff.mp (Nat.le_zero.mp hle)
  rw [Container.empty, BstImpl.empty, BstImpl.size, (hsync k).valid.counted]
  have hcontents : (x.state k).queue.mPimpl.contents = [] := hkempty
  rw [hcontents]
  rfl

/-! ## Queueing -/

/-- While a UDP thread is in its critical section nobody else touches the queue. -/
theorem step_queue_eq {s t : Threads ι} {e : Event ι} {i : ι} (hsync : s.Synchronised)
    (hin : (s.udp i).holdsTcp = true) (h : Step s e t) (hother : ¬ e.isUdp i) :
    t.queue = s.queue := by
  cases e with
  | udp j r =>
    cases udpMove_of_step h with
    | save hphase => exact Client.startBeforeTcp_queue _ r
    | insert msg tcpQueueSize hphase =>
      have heq := hsync.tcp.exclusive (t := Thread.udp j) (u := Thread.udp i)
        (by rw [critical, hphase]; rfl) hin
      exact absurd (Thread.udp.inj heq) hother
    | lockMessage | lockTcp | size | notify | unlockTcp | unlockMessage => rfl
  | tcp res =>
    cases tcpMove_of_step h with
    | remove index msg hphase =>
      have hout := hsync.tcp_outside hin
      rw [hphase] at hout
      cases hout
    | lock | check | park | wake | index | value | send | unlock => rfl

omit [DecidableEq ι] in
theorem TcpMove.inside {s t : Threads ι} {res : StreamResult} (h : s.TcpMove res t) (hin : s.tcp.holdsTcp = true) :
    s.tcp.inside = 1 ∧ t.tcpOwner = none ∨
      s.tcp.inside ≠ 1 ∧ t.tcp.holdsTcp = true ∧ t.tcp.inside < s.tcp.inside := by
  cases h with
  | lock hphase hfree =>
    rcases hphase with hphase | hphase
    · rw [hphase] at hin
      cases hin
    · rw [hphase] at hin
      cases hin
  | check hphase =>
    rw [hphase]
    refine .inr ⟨by decide, ?_⟩
    cases s.queue.empty with
    | true => exact ⟨rfl, show 1 < 6 by omega⟩
    | false => exact ⟨rfl, show 5 < 6 by omega⟩
  | park hphase =>
    rw [hphase]
    exact .inl ⟨rfl, rfl⟩
  | wake wasNotified hphase =>
    rw [hphase] at hin
    cases hin
  | index index hphase _ =>
    rw [hphase]
    exact .inr ⟨by decide, rfl, Nat.lt_succ_self _⟩
  | value index msg hphase _ =>
    rw [hphase]
    exact .inr ⟨Nat.succ_succ_ne_one 2, rfl, Nat.lt_succ_self _⟩
  | remove index msg hphase =>
    rw [hphase]
    exact .inr ⟨Nat.succ_succ_ne_one 1, rfl, Nat.lt_succ_self _⟩
  | send msg hphase =>
    rw [hphase]
    exact .inr ⟨Nat.succ_succ_ne_one 0, rfl, Nat.lt_succ_self _⟩
  | unlock outcome hphase =>
    rw [hphase]
    exact .inl ⟨rfl, rfl⟩

theorem udpStep_inside {s t : Threads ι} {i : ι} {r : ClientRound} (h : s.udpStep i r = .ok t) :
    t.tcp.holdsTcp = s.tcp.holdsTcp ∧ t.tcp.inside = s.tcp.inside := by
  cases udpMove_of_step h with
  | notify hphase =>
    refine ⟨TcpPhase.holdsTcp_notify, ?_⟩
    show s.tcp.notify.inside = s.tcp.inside
    cases s.tcp <;> rfl
  | lockMessage | save | lockTcp | size | insert | unlockTcp | unlockMessage => exact ⟨rfl, rfl⟩

theorem tcpStep_of_isTcp {s t : Threads ι} {e : Event ι} (h : Step s e t) (hown : e.isTcp) :
    ∃ res, s.TcpMove res t := by
  cases e with
  | udp i r => cases hown
  | tcp res => exact ⟨res, tcpMove_of_step h⟩

theorem udpStep_of_not_isTcp {s t : Threads ι} {e : Event ι} (h : Step s e t) (hother : ¬ e.isTcp) :
    ∃ i r, s.udpStep i r = .ok t := by
  cases e with
  | udp i r => exact ⟨i, r, h⟩
  | tcp res => exact absurd trivial hother

/-- The TCP thread leaves its critical section, too. -/
theorem exists_tcpUnlock {x : Execution (Step (ι := ι))} (hfair : Fair x)
    (hin : (x.state 0).tcp.holdsTcp = true) : ∃ n, (x.state n).tcpOwner = none := by
  have hweak : x.WeaklyFair (fun s => s.tcp.holdsTcp = true) Event.isTcp :=
    hfair.tcp.weaklyFair fun s hs => by
      unfold TcpEnabled
      cases hphase : s.tcp with
      | outside | parked _ | woken =>
        rw [hphase] at hs
        cases hs
      | _ => trivial
  obtain ⟨n, hone, hown⟩ := hweak.exists_of_variant (fun s e => s.tcp.inside = 1 ∧ e.isTcp)
    (fun s => s.tcp.inside) hin fun n hin hnot => by
      by_cases hown : (x.label n).isTcp
      · obtain ⟨res, hmove⟩ := tcpStep_of_isTcp (x.next n) hown
        rcases hmove.inside hin with ⟨hone, -⟩ | ⟨-, hkeep, hless⟩
        · exact absurd ⟨hone, hown⟩ hnot
        · exact ⟨hkeep, Nat.le_of_lt hless, fun _ => hless⟩
      · obtain ⟨i, r, hstep⟩ := udpStep_of_not_isTcp (x.next n) hown
        obtain ⟨hholds, hsame⟩ := udpStep_inside hstep
        exact ⟨hholds.trans hin, Nat.le_of_eq hsame, fun h => absurd h hown⟩
  have hholds : (x.state n).tcp.holdsTcp = true := by
    cases hphase : (x.state n).tcp with
    | outside | parked _ | woken =>
      rw [hphase] at hone
      cases hone
    | _ => rfl
  obtain ⟨res, hmove⟩ := tcpStep_of_isTcp (x.next n) hown
  rcases hmove.inside hholds with ⟨-, hfree⟩ | ⟨hne, -⟩
  · exact ⟨n + 1, hfree⟩
  · exact absurd hone hne

/-- `m_mutex_tcp` is free again and again. -/
theorem recurs_free {x : Execution (Step (ι := ι))} (hfair : Fair x)
    (hsync : ∀ n, (x.state n).Synchronised) :
    Execution.Recurs fun n => (x.state n).tcpOwner = none := by
  intro n
  cases howner : (x.state n).tcpOwner with
  | none => exact ⟨n, Nat.le_refl n, howner⟩
  | some u =>
    have hin := ((hsync n).tcp u).mp howner
    cases u with
    | udp i =>
      obtain ⟨m, hfree⟩ := exists_unlockTcp (hfair.drop n) hin
      exact ⟨n + m, Nat.le_add_right n m, hfree⟩
    | tcp =>
      obtain ⟨m, hfree⟩ := exists_tcpUnlock (hfair.drop n) hin
      exact ⟨n + m, Nat.le_add_right n m, hfree⟩

theorem exists_insert {x : Execution (Step (ι := ι))} (hfair : Fair x)
    (hsync : ∀ n, (x.state n).Synchronised) {i : ι}
    (hlock : x.StronglyFair (fun s => (∃ msg, s.udp i = .queueing msg) ∧ s.tcpOwner = none)
      (Event.isUdp i)) {n : ℕ} {msg : MessageFormat} (hqueueing : (x.state n).udp i = .queueing msg) :
    ∃ m, n ≤ m ∧ (x.state m).udp i = .sized msg (x.state m).queue.size ∧
      (x.state (m + 1)).udp i = .inserted ∧
      (x.state (m + 1)).queue = (x.state m).queue.insert (x.state m).queue.size msg := by
  have hkeep : ∀ {phase : UdpPhase} {s t : Threads ι} {e : Event ι}, s.udp i = phase →
      ¬ e.isUdp i → Step s e t → t.udp i = phase :=
    fun hphase hother h => (step_udp_eq h hother).trans hphase
  -- it gets the mutex
  obtain ⟨a, ha, haphase, haown⟩ := hlock.exists_act (P := fun s => s.udp i = .queueing msg)
    (fun k => by
      obtain ⟨m, hm, hfree⟩ := recurs_free hfair hsync k
      exact ⟨m, hm, fun hphase => ⟨⟨msg, hphase⟩, hfree⟩⟩)
    hkeep hqueueing
  have halocked : (x.state (a + 1)).udp i = .tcpLocked msg := by
    obtain ⟨r, hstep⟩ := udpStep_of_isUdp (x.next a) haown
    simp only [Threads.udpStep, haphase] at hstep
    split at hstep
    · rw [← Except.ok.inj hstep]
      exact setUdp_self _ i _
    · cases hstep
  -- it asks for the size
  obtain ⟨b, hb, hbphase, hbown⟩ := (hfair.critical i).exists_act
    (P := fun s => s.udp i = .tcpLocked msg) (fun s hs => by rw [hs]; rfl) hkeep halocked
  have hbsized : (x.state (b + 1)).udp i = .sized msg (x.state (b + 1)).queue.size := by
    obtain ⟨r, hstep⟩ := udpStep_of_isUdp (x.next b) hbown
    simp only [Threads.udpStep, hbphase] at hstep
    rw [← Except.ok.inj hstep]
    exact setUdp_self _ i _
  -- and inserts, before which the queue does not change
  obtain ⟨c, hc, ⟨hcsync, hcphase⟩, hcown⟩ := (hfair.critical i).exists_act
    (P := fun s => s.Synchronised ∧ s.udp i = .sized msg s.queue.size)
    (fun s hs => by rw [hs.2]; rfl)
    (fun hs hother h => by
      refine ⟨hs.1.step h, ?_⟩
      rw [step_queue_eq hs.1 (by rw [hs.2]; rfl) h hother]
      exact hkeep hs.2 hother h)
    ⟨hsync (b + 1), hbsized⟩
  obtain ⟨r, hstep⟩ := udpStep_of_isUdp (x.next c) hcown
  simp only [Threads.udpStep, hcphase] at hstep
  refine ⟨c, by omega, hcphase, ?_⟩
  rw [← Except.ok.inj hstep]
  exact ⟨setUdp_self _ i _, rfl⟩

/-- For a message that is to be queued `insert` is called in the end, with the size that the queue
then has as the index, if the mutex is handed to its thread once in a while.  The message is queued
if that index is free, else the call does nothing. -/
theorem message_queued {x : Execution (Step (ι := ι))} {socket : Int} {connected inProgress : Bool}
    (hstart : x.state 0 = start ι socket connected inProgress) (hfair : Fair x) {i : ι}
    (hlock : x.StronglyFair (fun s => (∃ msg, s.udp i = .queueing msg) ∧ s.tcpOwner = none)
      (Event.isUdp i)) {n : ℕ} {msg : MessageFormat} (hqueueing : (x.state n).udp i = .queueing msg) :
    ∃ m, n ≤ m ∧ (x.state m).udp i = .sized msg (x.state m).queue.size ∧
      (x.state (m + 1)).udp i = .inserted ∧
      (x.state (m + 1)).queue = (x.state m).queue.insert (x.state m).queue.size msg ∧
      ((x.state m).queue.contains (x.state m).queue.size = false →
        (x.state (m + 1)).queue.atId (x.state m).queue.size = .ok msg) ∧
      ((x.state m).queue.contains (x.state m).queue.size = true →
        (x.state (m + 1)).queue = (x.state m).queue) := by
  have hsync := synchronised_always hstart
  obtain ⟨m, hm, hsized, hinserted, hqueue⟩ := exists_insert hfair hsync hlock hqueueing
  refine ⟨m, hm, hsized, hinserted, hqueue, fun hfree => ?_, fun hused => ?_⟩
  · rw [hqueue]
    exact (hsync m).valid.atId_insert hfree msg
  · rw [hqueue, Container.insert, BstImpl.insert_of_contains hused]

/-! ## No deadlock -/

omit [DecidableEq ι] in
theorem tcpStep_blocked {s : Threads ι} {res : StreamResult} (h : s.tcpStep res = .error .blocked) :
    s.tcp.holdsTcp = false ∧ s.tcpOwner ≠ none := by
  have howner : ∀ t : Threads ι,
      (if s.tcpOwner.isNone = true then .ok t else .error .blocked : Except Stop (Threads ι)) =
        .error .blocked → s.tcpOwner ≠ none := fun t hif hnone => by
    rw [hnone] at hif
    cases hif
  cases hphase : s.tcp with
  | outside =>
    simp only [Threads.tcpStep, hphase] at h
    exact ⟨rfl, howner _ h⟩
  | woken =>
    simp only [Threads.tcpStep, hphase] at h
    exact ⟨rfl, howner _ h⟩
  | ready | indexed _ =>
    simp only [Threads.tcpStep, hphase] at h
    split at h
    · cases h
    · cases h
  | checking | parking | parked _ | valued _ _ | removed _ | sent _ =>
    simp only [Threads.tcpStep, hphase] at h
    cases h

/-- In every interleaving: the holder of `m_mutex_tcp` can move, the holder of `m_mutex_message` can
move or waits for the TCP thread alone, and the TCP thread waits for a UDP thread that holds both. -/
theorem no_cyclic_wait {socket : Int} {connected inProgress : Bool} {events : List (Event ι)}
    {s : Threads ι} (hrun : Run Step (start ι socket connected inProgress) events s) :
    (∀ i, s.tcpOwner = some (.udp i) → ∀ r, ∃ t, s.udpStep i r = .ok t) ∧
      (s.tcpOwner = some .tcp → ∀ res, ∃ t, s.tcpStep res = .ok t) ∧
      (∀ i r, s.messageOwner = some i → (∃ t, s.udpStep i r = .ok t) ∨ s.tcpOwner = some .tcp) ∧
      ∀ res, s.tcpStep res = .error .blocked →
        ∃ i, s.tcpOwner = some (.udp i) ∧ s.messageOwner = some i := by
  have hsync := synchronised_run hrun
  -- inside `lock_tcp` a thread is also inside `messageLock`
  have hboth : ∀ i, s.tcpOwner = some (.udp i) → s.messageOwner = some i := fun i hi =>
    (hsync.messages i).mpr (UdpPhase.holdsMessage_of_holdsTcp ((hsync.tcp (.udp i)).mp hi))
  have hudp : ∀ i r, s.messageOwner = some i → (∃ t, s.udpStep i r = .ok t) ∨
      (∃ msg, s.udp i = .queueing msg) ∧ s.tcpOwner ≠ none := fun i r hi => by
    have hin : (s.udp i).holdsMessage = true := (hsync.messages i).mp hi
    unfold Threads.udpStep
    cases hphase : s.udp i with
    | outside =>
      rw [hphase] at hin
      cases hin
    | queueing msg =>
      cases hfree : s.tcpOwner with
      | none => exact .inl ⟨_, rfl⟩
      | some u => exact .inr ⟨⟨msg, rfl⟩, Option.some_ne_none u⟩
    | _ => exact .inl ⟨_, rfl⟩
  refine ⟨fun i hi r => ?_, fun htcp res => ?_, fun i r hi => ?_, fun res hblocked => ?_⟩
  · refine (hudp i r (hboth i hi)).resolve_right fun hwait => ?_
    obtain ⟨⟨msg, hphase⟩, -⟩ := hwait
    have hin : (s.udp i).holdsTcp = true := (hsync.tcp (.udp i)).mp hi
    rw [hphase] at hin
    cases hin
  · rcases hsync.tcpStep res with hblocked | ⟨t, ht, -⟩
    · have hin : s.tcp.holdsTcp = true := (hsync.tcp .tcp).mp htcp
      rw [(tcpStep_blocked hblocked).1] at hin
      cases hin
    · exact ⟨t, ht⟩
  · rcases hudp i r hi with hmoves | ⟨⟨msg, hphase⟩, howner⟩
    · exact .inl hmoves
    · cases hs : s.tcpOwner with
      | none => exact absurd hs howner
      | some u =>
        cases u with
        | tcp => exact .inr rfl
        | udp j =>
          -- another UDP thread would hold `m_mutex_message` as well
          have hj := hboth j hs
          rw [hi] at hj
          obtain rfl := Option.some.inj hj
          have hin : (s.udp i).holdsTcp = true := (hsync.tcp (.udp i)).mp hs
          rw [hphase] at hin
          cases hin
  · obtain ⟨hout, howner⟩ := tcpStep_blocked hblocked
    cases hs : s.tcpOwner with
    | none => exact absurd hs howner
    | some u =>
      cases u with
      | udp i => exact ⟨i, rfl, hboth i hs⟩
      | tcp =>
        have hin : s.tcp.holdsTcp = true := (hsync.tcp .tcp).mp hs
        rw [hout] at hin
        cases hin

/-! ## A fair execution -/

/-- The TCP thread wakes up without a notification for ever and finds nothing to forward. -/
def idle (s : Threads ι) (n : ℕ) : Threads ι :=
  if n % 4 = 0 then s
  else if n % 4 = 1 then { s with tcp := .woken }
  else if n % 4 = 2 then { s with tcpOwner := some .tcp, tcp := .checking }
  else { s with tcpOwner := some .tcp, tcp := .parking }

omit [DecidableEq ι] in
theorem idle_client (s : Threads ι) (n : ℕ) :
    (s.idle n).client = s.client ∧ (s.idle n).udp = s.udp := by
  unfold idle
  split
  · exact ⟨rfl, rfl⟩
  · split
    · exact ⟨rfl, rfl⟩
    · split
      · exact ⟨rfl, rfl⟩
      · exact ⟨rfl, rfl⟩

theorem idle_next {s : Threads ι} (hparked : s.tcp = .parked false) (hfree : s.tcpOwner = none)
    (hempty : s.queue.empty = true) (n : ℕ) : Step (s.idle n) (.tcp .error) (s.idle (n + 1)) := by
  obtain ⟨client, messageOwner, tcpOwner, udp, tcp⟩ := s
  obtain rfl : tcp = .parked false := hparked
  obtain rfl : tcpOwner = none := hfree
  have hsucc : (n + 1) % 4 = (n % 4 + 1) % 4 := by omega
  have hn : n % 4 < 4 := Nat.mod_lt n (by decide)
  unfold idle
  rw [hsucc]
  generalize n % 4 = k at hn
  obtain rfl | rfl | rfl | rfl : k = 0 ∨ k = 1 ∨ k = 2 ∨ k = 3 := by omega
  · rfl
  · rfl
  · have hcheck : client.mContainerTcpQueue.empty = true := hempty
    show Except.ok (⟨client, messageOwner, some .tcp, udp,
      if client.mContainerTcpQueue.empty = true then .parking else .ready⟩ : Threads ι) = _
    rw [hcheck]
    rfl
  · rfl

/-- A run that ends with everybody outside, the TCP thread parked and nothing to forward goes on in a
fair execution. -/
theorem exists_fair {s₀ s : Threads ι} {events : List (Event ι)} (hrun : Run Step s₀ events s)
    (hparked : s.tcp = .parked false) (hfree : s.tcpOwner = none) (hempty : s.queue.empty = true)
    (hout : ∀ i, s.udp i = .outside) :
    ∃ x : Execution (Step (ι := ι)), x.state 0 = s₀ ∧ Fair x ∧
      (∀ n, n ≤ events.length → Run Step s₀ (events.take n) (x.state n)) ∧
      (∀ n, n < events.length → events[n]? = some (x.label n)) ∧
      ∀ n, events.length ≤ n → (x.state n).client = s.client ∧
        (∀ i, (x.state n).udp i = .outside) ∧ (x.label n).isTcp := by
  obtain ⟨x, hstart, htake, hlabels, hx⟩ :=
    exists_execution hrun ⟨s.idle, fun _ => .tcp .error, idle_next hparked hfree hempty⟩ rfl
  have hend : ∀ n, events.length ≤ n → (x.state n).client = s.client ∧
      (∀ i, (x.state n).udp i = .outside) ∧ (x.label n).isTcp := fun n hn => by
    obtain ⟨hstate, hlabel⟩ := hx (n - events.length)
    rw [Nat.add_sub_cancel' hn] at hstate hlabel
    rw [hstate, hlabel]
    refine ⟨(s.idle_client _).1, fun i => ?_, trivial⟩
    show (s.idle _).udp i = .outside
    rw [(s.idle_client _).2, hout]
  refine ⟨x, hstart, ⟨fun i n hin => ?_, fun _ n => ?_⟩, htake, hlabels, hend⟩
  · -- nobody stays in the critical section
    have hlate : ((x.state (max n events.length)).udp i).holdsTcp = true :=
      hin _ (Nat.le_max_left _ _)
    rw [(hend _ (Nat.le_max_right _ _)).2.1 i] at hlate
    cases hlate
  · exact ⟨max n events.length, Nat.le_max_left _ _, (hend _ (Nat.le_max_right _ _)).2.2⟩

/-- One message is received, queued, taken and handed to `send`, after which the TCP thread wakes up
for nothing again and again. -/
theorem exists_fair_one :
    ∃ x : Execution (Step (ι := Unit)), x.state 0 = start Unit 3 true false ∧ Fair x ∧
      (∀ n, (x.state n).queue.mPimpl.contents.length < 2 ^ 64) ∧
      (x.state 2).udp () = .queueing (makeMessageWithId 10) ∧ (x.state 8).queue.empty = false ∧
      (∀ n, 8 ≤ n → (x.state n).udp () = .outside ∧ (x.label n).isTcp) ∧
      ∀ n < 8, (x.state n).queue.contains (x.state n).queue.size = false := by
  let pad : Buffer 5 := ⟨[0, 0, 0, 0, 0], rfl⟩
  let r : ClientRound :=
    { selected := 1, readySend := true, sendAccepted := true, readyRecv := true, padding := pad
      recvResult := .datagram (UDPSocket.bindAddr loopbackAddr recvUdpPort)
        ((makeMessageWithId 10).toRaw pad).bytes }
  let events : List (Event Unit) := List.replicate 8 (.udp () r) ++ List.replicate 10 (.tcp .error)
  obtain ⟨s, hrun, hs⟩ := exists_run_of_foldlM step (start Unit 3 true false) events
    (fun s => (s.tcp, s.tcpOwner.isNone, s.queue, s.udp ())) (b := (.parked false, true, {}, .outside))
    (by decide +kernel)
  obtain ⟨hparked, hs⟩ := Prod.mk.inj hs
  obtain ⟨hfree, hs⟩ := Prod.mk.inj hs
  obtain ⟨hqueue, hout⟩ := Prod.mk.inj hs
  obtain ⟨x, hstart, hfair, htake, hlabels, hend⟩ := exists_fair hrun hparked
    (Option.isNone_iff_eq_none.mp hfree) (by rw [hqueue]; rfl) (fun _ => hout)
  have hat : ∀ n, n ≤ 18 → (events.take n).foldlM step (start Unit 3 true false) = .ok (x.state n) :=
    fun n hn => run_iff_foldlM.mp (htake n hn)
  -- what is wanted of the states before the end, read off the run itself
  have hread : ∀ {β : Type} (f : Threads Unit → β) {b : β} {n : ℕ}, n ≤ 18 →
      ((events.take n).foldlM step (start Unit 3 true false)).map f = .ok b → f (x.state n) = b :=
    fun f b n hn hb => by
      rw [hat n hn] at hb
      exact Except.ok.inj hb
  refine ⟨x, hstart, hfair, fun n => ?_, hread (fun s => s.udp ()) (by decide) (by decide +kernel),
    hread (fun s => s.queue.empty) (by decide) (by decide +kernel), fun n hn => ?_, fun n hn => ?_⟩
  · rcases Nat.lt_or_ge n 18 with hlt | hge
    · have hall : ∀ k < 18, ((events.take k).foldlM step (start Unit 3 true false)).map
          (fun s => decide (s.queue.mPimpl.contents.length < 2 ^ 64)) = .ok true := by decide +kernel
      exact of_decide_eq_true (hread _ (by omega) (hall n hlt))
    · rw [queue, (hend n hge).1]
      show s.queue.mPimpl.contents.length < 2 ^ 64
      rw [hqueue]
      decide
  · rcases Nat.lt_or_ge n 18 with hlt | hge
    · have hall : ∀ k < 18, 8 ≤ k → ((events.take k).foldlM step (start Unit 3 true false)).map
          (fun s => s.udp ()) = .ok .outside := by decide +kernel
      refine ⟨hread _ (by omega) (hall n hlt hn), ?_⟩
      have htcp : ∀ k < 18, 8 ≤ k → events[k]? = some (.tcp .error) := fun k hk hk' => by
        rw [List.getElem?_append_right (by rw [List.length_replicate]; exact hk'),
          List.length_replicate, List.getElem?_replicate, if_pos (by omega)]
      have hlabel := hlabels n hlt
      rw [htcp n hlt hn] at hlabel
      rw [← Option.some.inj hlabel]
      trivial
    · exact ⟨(hend n hge).2.1 (), (hend n hge).2.2⟩
  · have hall : ∀ k < 8, ((events.take k).foldlM step (start Unit 3 true false)).map
        (fun s => s.queue.contains s.queue.size) = .ok false := by decide +kernel
    exact hread _ (by omega) (hall n hn)

theorem queue_served_one :
    ∃ x : Execution (Step (ι := Unit)), x.state 0 = start Unit 3 true false ∧ Fair x ∧
      (x.state 8).queue.empty = false ∧ ∃ m, 8 ≤ m ∧ ∃ index msg, FirstIs (x.state m).queue index ∧
        (x.state m).queue.atId index = .ok msg ∧ (x.state (m + 1)).tcp = .removed msg := by
  obtain ⟨x, hstart, hfair, hmemory, -, hwaiting, -⟩ := exists_fair_one
  obtain ⟨m, hm, index, msg, hfirst, hat, -, hremoved, -⟩ :=
    queue_served hstart hfair hmemory hwaiting
  exact ⟨x, hstart, hfair, hwaiting, m, hm, index, msg, hfirst, hat, hremoved⟩

theorem queue_drained_one :
    ∃ x : Execution (Step (ι := Unit)), x.state 0 = start Unit 3 true false ∧ Fair x ∧
      (x.state 8).queue.empty = false ∧ ∃ m, 8 ≤ m ∧ ∀ k, m ≤ k → (x.state k).queue.empty = true := by
  obtain ⟨x, hstart, hfair, hmemory, -, hwaiting, hend, -⟩ := exists_fair_one
  refine ⟨x, hstart, hfair, hwaiting, queue_drained hstart hfair hmemory fun m hm i msg size hsized => ?_⟩
  rw [(hend m hm).1] at hsized
  cases hsized

theorem message_queued_one :
    ∃ x : Execution (Step (ι := Unit)), x.state 0 = start Unit 3 true false ∧ Fair x ∧
      (x.state 2).udp () = .queueing (makeMessageWithId 10) ∧
      ∃ m, 2 ≤ m ∧ (x.state (m + 1)).queue.atId (x.state m).queue.size =
        .ok (makeMessageWithId 10) := by
  obtain ⟨x, hstart, hfair, -, hqueueing, -, hend, hindex⟩ := exists_fair_one
  -- in the end the thread does not ask for the mutex, so nothing is owed to it
  obtain ⟨m, hm, hsized, -, -, hfree, -⟩ := message_queued hstart hfair (i := ()) (fun hrec => by
    obtain ⟨k, hk, ⟨msg, hphase⟩, -⟩ := hrec 8
    rw [(hend k hk).1] at hphase
    cases hphase) hqueueing
  have hbefore : m < 8 := by
    by_contra hafter
    rw [(hend m (by omega)).1] at hsized
    cases hsized
  exact ⟨x, hstart, hfair, hqueueing, m, hm, hfree (hindex m hbefore)⟩

/-- A UDP thread has inserted and not notified yet, while the TCP thread, woken up without a
notification, waits for the mutex. -/
theorem no_cyclic_wait_woken :
    let pad : Buffer 5 := ⟨[0, 0, 0, 0, 0], rfl⟩
    let r : ClientRound :=
      { selected := 1, readySend := true, sendAccepted := true, readyRecv := true, padding := pad
        recvResult := .datagram (UDPSocket.bindAddr loopbackAddr recvUdpPort)
          ((makeMessageWithId 10).toRaw pad).bytes }
    let events : List (Event Bool) := List.replicate 3 (.tcp .error) ++
      List.replicate 6 (.udp false r) ++ [.tcp .error]
    ∃ s, Run Step (start Bool 3 true false) events s ∧ s.tcpStep .error = .error .blocked ∧
      ∃ i, s.tcpOwner = some (.udp i) ∧ ∃ t, s.udpStep i r = .ok t := by
  intro pad r events
  obtain ⟨s, hrun, hs⟩ := exists_run_of_foldlM step (start Bool 3 true false) events
    (fun s => (s.tcp, s.tcpOwner.isNone)) (b := (.woken, false)) (by decide +kernel)
  obtain ⟨hwoken, howned⟩ := Prod.mk.inj hs
  have hblocked : s.tcpStep .error = .error .blocked := by
    rw [Threads.tcpStep, hwoken]
    dsimp only
    rw [howned]
    rfl
  obtain ⟨hmoves, -, -, hwaits⟩ := no_cyclic_wait hrun
  obtain ⟨i, howner, -⟩ := hwaits .error hblocked
  exact ⟨s, hrun, hblocked, i, howner, hmoves i howner r⟩

end Threads

end MessageTransmitter
