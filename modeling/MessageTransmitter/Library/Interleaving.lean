import Mathlib.Data.Fintype.Defs
import Mathlib.Data.List.Basic

/-!
# Interleavings of threads

A schedule is a list of actions, each tagged with the thread that takes it.  It interleaves the
threads when every thread finds its own actions in it, complete and in its own order.
-/

namespace Interleaving

variable {ι α : Type*} [DecidableEq ι]

/-- The actions that the schedule gives to thread `i`, in order. -/
def actionsOf (i : ι) (sched : List (ι × α)) : List α :=
  (sched.filter fun e => e.1 = i).map Prod.snd

/-- The schedule runs every thread to its end, each in program order. -/
def Interleaves (threads : ι → List α) (sched : List (ι × α)) : Prop :=
  ∀ i, actionsOf i sched = threads i

instance [Fintype ι] [DecidableEq α] (threads : ι → List α) (sched : List (ι × α)) :
    Decidable (Interleaves threads sched) :=
  inferInstanceAs (Decidable (∀ i, actionsOf i sched = threads i))

theorem count_eq_count_actionsOf [DecidableEq α] (sched : List (ι × α)) (i : ι) (a : α) :
    sched.count (i, a) = (actionsOf i sched).count a := by
  induction sched with
  | nil => rfl
  | cons e sched ih =>
    obtain ⟨j, b⟩ := e
    -- the first entry counts on both sides or on neither
    by_cases hj : j = i
    · subst hj
      simp only [actionsOf, decide_true, List.filter_cons_of_pos, List.map_cons,
        List.count_cons] at ih ⊢
      rw [ih]
      congr 1
      simp
    · have hne : (j, b) ≠ (i, a) := fun h => hj (Prod.mk.inj h).1
      rw [List.count_cons_of_ne hne, ih]
      simp [actionsOf, hj]

/-- Two schedules of the same threads take the same actions, each equally often. -/
theorem Interleaves.perm [DecidableEq α] {threads : ι → List α} {s t : List (ι × α)}
    (hs : Interleaves threads s) (ht : Interleaves threads t) : s.Perm t := by
  rw [List.perm_iff_count]
  rintro ⟨i, a⟩
  rw [count_eq_count_actionsOf, count_eq_count_actionsOf, hs i, ht i]

theorem Interleaves.mem {threads : ι → List α} {s : List (ι × α)} (hs : Interleaves threads s)
    {i : ι} {a : α} (h : (i, a) ∈ s) : a ∈ threads i := by
  rw [← hs i, actionsOf, List.mem_map]
  exact ⟨(i, a), List.mem_filter.mpr ⟨h, decide_eq_true rfl⟩, rfl⟩

end Interleaving
