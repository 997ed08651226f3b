import MessageTransmitter.Receiver.ForwardQueue

/-!
# The order of the forwarding queue

Messages leave by index, and an index is only the size of the queue at the time of the insertion.
A message whose index is free but not the greatest one in the queue overtakes the older messages
above it (`leaves_in_order_iff`).
-/

open SortedAssoc Transition

namespace MessageTransmitter

namespace Forwarding

/-- Messages leave in the order of their enqueue steps, and those in the queue are later ones. -/
structure InOrder (s : Forwarding) : Prop where
  left : (s.departures.map Prod.fst).Pairwise (· < ·)
  waiting : ∀ b ∈ s.departures.map Prod.fst, ∀ k, s.queue.contains k = true → b < s.owner k
  sublist : s.dequeued.Sublist s.enqueued

/-! ## One step -/

/-- Every message that has left or is going to leave carries the step that enqueued it. -/
def Stamped (s : Forwarding) : Prop := ∀ p ∈ s.leaving, p.1 < s.enqueued.length

/-- The enqueue steps of the messages that have left or are going to leave increase. -/
def Increasing (s : Forwarding) : Prop := (s.leaving.map Prod.fst).Pairwise (· < ·)

theorem stamped_effect {s t : Forwarding} {e : Event} (heffect : Effect s e t)
    (h : s.Stamped) : t.Stamped := by
  unfold Stamped at *
  cases heffect with
  | idle _ _ henq hleave _ => rwa [henq, hleave]
  | taken d _ _ henq hleave _ _ => rwa [henq, hleave]
  | ignored msg _ _ _ henq hleave _ =>
    intro p hp
    rw [hleave] at hp
    rw [henq, List.length_append]
    exact (h p hp).trans_le (Nat.le_add_right _ _)
  | inserted msg l r _ _ _ henq hs ht _ =>
    intro p hp
    rw [ht, List.mem_append, List.mem_cons, or_left_comm, ← List.mem_append, ← hs] at hp
    rw [henq, List.length_append, List.length_singleton]
    rcases hp with rfl | hp
    · exact Nat.lt_succ_self _
    · exact (h p hp).trans (Nat.lt_succ_self _)

/-- A new message keeps the steps increasing exactly when it goes to the end of the queue. -/
theorem increasing_effect {s t : Forwarding} {e : Event} (heffect : Effect s e t)
    (h : s.Stamped) : t.Increasing ↔ s.Increasing ∧ s.NoOvertaking e := by
  unfold Increasing
  cases heffect with
  | idle _ hpass _ hleave _ => simp only [hleave, hpass, and_true]
  | taken d _ hpass _ hleave _ _ => simp only [hleave, hpass, and_true]
  | ignored msg _ _ hpass _ hleave _ => simp only [hleave, hpass, and_true]
  | inserted msg l r _ _ hpass _ hs ht _ =>
    rw [hpass]
    cases r with
    | nil =>
      have hl : ∀ a ∈ l.map Prod.fst, ∀ b ∈ [s.enqueued.length], a < b := by
        intro a ha b hb
        obtain ⟨p, hp, rfl⟩ := List.mem_map.mp ha
        rw [List.mem_singleton.mp hb]
        exact h p (by rw [hs, List.append_nil]; exact hp)
      rw [ht, hs, List.append_nil, List.map_append, List.pairwise_append]
      simp only [List.map_cons, List.map_nil, List.pairwise_singleton, true_and, and_true]
      exact and_iff_left hl
    | cons p r =>
      -- the first message behind the new one is older
      have hp : p.1 < s.enqueued.length := h p (by rw [hs]; simp)
      simp only [List.cons_ne_nil, and_false, iff_false]
      rw [ht, List.map_append, List.map_cons, List.map_cons, List.pairwise_append,
        List.pairwise_cons]
      rintro ⟨-, ⟨hlt, -⟩, -⟩
      exact lt_asymm hp (hlt p.1 List.mem_cons_self)

theorem sublist_effect {s t : Forwarding} {e : Event} (heffect : Effect s e t)
    (hpass : s.NoOvertaking e) (h : (s.leaving.map Prod.snd).Sublist s.enqueued) :
    (t.leaving.map Prod.snd).Sublist t.enqueued := by
  cases heffect with
  | idle _ _ henq hleave _ => rwa [henq, hleave]
  | taken d _ _ henq hleave _ _ => rwa [henq, hleave]
  | ignored msg _ _ _ henq hleave _ =>
    rw [henq, hleave]
    exact h.trans (List.sublist_append_left _ _)
  | inserted msg l r _ _ hiff henq hs ht _ =>
    obtain rfl := hiff.mp hpass
    rw [hs, List.append_nil] at h
    rw [henq, ht, List.map_append]
    exact h.append (List.Sublist.refl _)

theorem inOrder_of_increasing {s : Forwarding} (h : s.Accounted) (hincr : s.Increasing)
    (hsub : (s.leaving.map Prod.snd).Sublist s.enqueued) : s.InOrder := by
  rw [leaving_map_snd] at hsub
  simp only [Increasing, leaving, waiting, List.map_append, List.map_map] at hincr
  obtain ⟨hleft, -, hbefore⟩ := List.pairwise_append.mp hincr
  refine ⟨hleft, fun b hb k hk => ?_, (List.sublist_append_left _ _).trans hsub⟩
  obtain ⟨v, hv⟩ := mem_keys.mp (h.valid.contains_iff.mp hk)
  exact hbefore b hb (s.owner k) (List.mem_map.mpr ⟨(k, v), hv, rfl⟩)

/-! ## Emptying the queue -/

/-- Rounds of `sendViaTcpSocket` move messages out of the queue and change nothing else. -/
theorem rounds_leaving {s t : Forwarding} (h : s.Accounted) {n : ℕ} {res : StreamResult}
    (hrun : Run Step s (List.replicate n (.tcp res)) t) :
    t.Accounted ∧ t.leaving = s.leaving ∧ t.enqueued = s.enqueued := by
  induction n generalizing t with
  | zero =>
    obtain rfl := run_nil_iff.mp hrun
    exact ⟨h, rfl, rfl⟩
  | succ n ih =>
    rw [List.replicate_succ', run_snoc_iff] at hrun
    obtain ⟨u, hu, hlast⟩ := hrun
    obtain ⟨haccounted, hleaving, henqueued⟩ := ih hu
    obtain ⟨ht, heffect⟩ := accounted_step haccounted hlast
    refine ⟨ht, ?_⟩
    rw [← hleaving, ← henqueued]
    cases heffect with
    | idle _ _ henq hleave _ => exact ⟨hleave, henq⟩
    | taken d _ _ henq hleave _ _ => exact ⟨hleave, henq⟩
    | ignored msg he => cases he
    | inserted msg l r he => cases he

theorem exists_rounds {s : Forwarding} (h : s.Accounted) (hmemory : s.stored.length < 2 ^ 64)
    (res : StreamResult) {n : ℕ} (hn : n ≤ s.stored.length) :
    ∃ t, Run Step s (List.replicate n (.tcp res)) t ∧ t.stored.length + n = s.stored.length := by
  induction n with
  | zero => exact ⟨s, .nil, rfl⟩
  | succ n ih =>
    obtain ⟨t, hrun, hlen⟩ := ih (Nat.le_of_succ_le hn)
    obtain ⟨ht, -, -⟩ := rounds_leaving h hrun
    have hcontents : t.queue.mPimpl.contents.length = t.stored.length := (List.length_map _).symm
    have hempty : t.queue.empty = false := ht.valid.empty_eq_false (by omega) (by omega)
    obtain ⟨⟨k, v⟩, es, he⟩ := List.exists_cons_of_ne_nil (ht.valid.contents_ne_nil hempty)
    obtain ⟨u, sent, hstep, hqueue, -, -, -⟩ := step_tcp_of_cons ht.valid he hempty res
    have hafter : u.queue.mPimpl.contents = es := by
      rw [hqueue]
      exact ht.valid.contents_remove_front he
    refine ⟨u, ?_, ?_⟩
    · rw [List.replicate_succ']
      exact hrun.snoc hstep
    · rw [he, List.length_cons] at hcontents
      rw [stored, hafter, List.length_map]
      omega

theorem exists_drained {s : Forwarding} (h : s.Accounted) (hmemory : s.stored.length < 2 ^ 64)
    (res : StreamResult) :
    ∃ t, Run Step s (List.replicate s.stored.length (.tcp res)) t ∧ t.stored = [] := by
  obtain ⟨t, hrun, hlen⟩ := exists_rounds h hmemory res (le_refl _)
  exact ⟨t, hrun, List.eq_nil_of_length_eq_zero (by omega)⟩

/-! ## Whole runs -/

theorem increasing_iff_guarded {s t : Forwarding} {events : List Event} (hs : s.Accounted)
    (hnew : s.leaving = []) (hrun : Run Step s events t) :
    t.Increasing ↔ Run (Guarded NoOvertaking Step) s events t := by
  have hstamped : s.Stamped := by rw [Stamped, hnew]; exact fun _ hp => absurd hp List.not_mem_nil
  have hincr : s.Increasing := by rw [Increasing, hnew]; exact List.Pairwise.nil
  refine hrun.iff_guarded (fun u => u.Accounted ∧ u.Stamped) ⟨hs, hstamped⟩ hincr ?_
  intro u e v hu hstep
  obtain ⟨hv, heffect⟩ := accounted_step hu.1 hstep
  exact ⟨⟨hv, stamped_effect heffect hu.2⟩, increasing_effect heffect hu.2⟩

theorem sublist_of_guarded {s t : Forwarding} {events : List Event} (hs : s.Accounted)
    (hnew : s.leaving = []) (hguarded : Run (Guarded NoOvertaking Step) s events t) :
    (t.leaving.map Prod.snd).Sublist t.enqueued := by
  have hsub : (s.leaving.map Prod.snd).Sublist s.enqueued := by
    rw [hnew]
    exact List.nil_sublist _
  have hboth := hguarded.invariant
    (fun u => u.Accounted ∧ (u.leaving.map Prod.snd).Sublist u.enqueued) ⟨hs, hsub⟩ ?_
  · exact hboth.2
  · intro u e v hu hstep
    obtain ⟨hv, heffect⟩ := accounted_step hu.1 hstep.2
    exact ⟨hv, sublist_effect heffect hstep.1 hu.2⟩

theorem departed_of_stored_nil {s : Forwarding} (h : s.stored = []) :
    s.leaving.map Prod.fst = s.departures.map Prod.fst := by
  rw [leaving, waiting, List.map_eq_nil_iff.mp h, List.map_nil, List.append_nil, List.map_map]
  rfl

/-- A run keeps its messages in order, while it goes on and while the queue is emptied afterwards,
exactly when every message for the queue finds its index used or above all others. -/
theorem leaves_in_order_iff (socket : Int) (connected inProgress : Bool) (events : List Event) :
    ∃ s, Run Step (start socket connected inProgress) events s ∧
      s.received = events.filterMap Event.received ∧
      (Run (Guarded NoOvertaking Step) (start socket connected inProgress) events s →
        s.InOrder) ∧
      (s.stored.length < 2 ^ 64 →
        ((∀ n t, Run Step (start socket connected inProgress)
            (events ++ List.replicate n (.tcp .error)) t → t.InOrder) ↔
          Run (Guarded NoOvertaking Step) (start socket connected inProgress) events s)) := by
  have hstart := accounted_start socket connected inProgress
  obtain ⟨s, hrun, hs⟩ := exists_accounted_run hstart events
  have hiff := increasing_iff_guarded hstart rfl hrun
  have hrounds : Run (Guarded NoOvertaking Step) (start socket connected inProgress) events s →
      ∀ n t, Run Step s (List.replicate n (.tcp .error)) t → t.InOrder := by
    intro hguarded n t ht
    obtain ⟨haccounted, hleaving, henq⟩ := rounds_leaving hs ht
    apply inOrder_of_increasing haccounted
    · rw [Increasing, hleaving]
      exact hiff.mpr hguarded
    · rw [hleaving, henq]
      exact sublist_of_guarded hstart rfl hguarded
  refine ⟨s, hrun, received_run hstart hrun, fun hguarded => hrounds hguarded 0 s .nil,
    fun hmemory => ⟨?_, ?_⟩⟩
  · intro h
    obtain ⟨t, ht, hempty⟩ := exists_drained hs hmemory .error
    obtain ⟨-, hleaving, -⟩ := rounds_leaving hs ht
    have hinOrder : t.InOrder := h _ t (run_append_iff.mpr ⟨s, hrun, ht⟩)
    rw [← hiff, Increasing, ← hleaving, departed_of_stored_nil hempty]
    exact hinOrder.left
  · intro hguarded n t ht
    obtain ⟨u, hu, htail⟩ := run_append_iff.mp ht
    obtain rfl := hrun.deterministic hu
    exact hrounds hguarded n t htail

/-- With 0 and 1 taken out of 0, 1 and 2, the next message gets the index 1 and leaves before the
message under 2. -/
theorem leaves_in_order_broken :
    let a : MessageFormat := ⟨0, 0, 10, 10⟩
    let b : MessageFormat := ⟨0, 0, 10, 30⟩
    let c : MessageFormat := ⟨0, 0, 10, 50⟩
    let d : MessageFormat := ⟨0, 0, 10, 70⟩
    let round : Event := .tcp (.count 24)
    ∃ s, Run Step (start 3 true false)
        [.udp a, .udp b, .udp c, round, round, .udp d, round, round] s ∧
      s.enqueued = [a, b, c, d] ∧ s.dequeued = [a, b, d, c] ∧ ¬ s.InOrder := by
  intro a b c d round
  obtain ⟨s, hrun, hs⟩ := exists_run_of_foldlM step (start 3 true false)
    [.udp a, .udp b, .udp c, round, round, .udp d, round, round]
    (fun s => (s.enqueued, s.dequeued)) (b := ([a, b, c, d], [a, b, d, c])) (by decide +kernel)
  obtain ⟨henq, hdeq⟩ := Prod.mk.inj hs
  refine ⟨s, hrun, henq, hdeq, fun h => ?_⟩
  have hsub := h.sublist
  rw [henq, hdeq] at hsub
  exact absurd hsub (by decide)

end Forwarding

end MessageTransmitter
