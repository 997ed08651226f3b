import Mathlib.Data.Option.Basic

/-!
# Mutexes

A mutex records the thread that owns it.  It guards a critical section when the owner is the one
thread that is in there; threads keep that up by taking a free mutex when they enter, giving it back
when they leave, and not crossing the border otherwise.
-/

namespace Mutex

variable {τ : Type*} {owner : Option τ} {critical critical' : τ → Prop} {t : τ}

/-- The recorded owner is the thread in the critical section. -/
def Guards (owner : Option τ) (critical : τ → Prop) : Prop := ∀ t, owner = some t ↔ critical t

theorem guards_none : Guards none critical ↔ ∀ t, ¬ critical t := by
  simp [Guards]

theorem Guards.exclusive (h : Guards owner critical) {u : τ} (ht : critical t) (hu : critical u) :
    t = u :=
  Option.some.inj (((h t).mpr ht).symm.trans ((h u).mpr hu))

theorem Guards.stay (h : Guards owner critical) (hstay : ∀ u, critical' u ↔ critical u) :
    Guards owner critical' :=
  fun u => (h u).trans (hstay u).symm

/-- A thread that takes the free mutex may enter. -/
theorem Guards.acquire (h : Guards none critical) (henter : critical' t)
    (hothers : ∀ u, u ≠ t → (critical' u ↔ critical u)) : Guards (some t) critical' := by
  intro u
  by_cases hu : u = t
  · subst hu
    exact iff_of_true rfl henter
  · have hout : ¬ critical' u := fun hin => guards_none.mp h u ((hothers u hu).mp hin)
    exact iff_of_false (fun heq => hu (Option.some.inj heq).symm) hout

/-- A thread that was in there gives the mutex back when it has left. -/
theorem Guards.release (h : Guards owner critical) (hin : critical t) (hleave : ¬ critical' t)
    (hothers : ∀ u, u ≠ t → (critical' u ↔ critical u)) : Guards none critical' := by
  rw [guards_none]
  intro u hu
  by_cases heq : u = t
  · exact hleave (heq ▸ hu)
  · exact heq (h.exclusive ((hothers u heq).mp hu) hin)

end Mutex
