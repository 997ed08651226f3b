import Mathlib.Data.List.Induction

/-!
# Runs of labelled transition systems

A system is a labelled step relation.  `Run step s is t` says that the labels `is`, taken one after
the other from `s`, can end in `t`.  Guarding a system with a condition on the state before a step
keeps exactly the runs whose steps all meet that condition.
-/

namespace Transition

variable {σ ι ε : Type*}

/-- The finite runs of a step relation, extended at the end. -/
inductive Run (step : σ → ι → σ → Prop) (s : σ) : List ι → σ → Prop
  | nil : Run step s [] s
  | snoc {is : List ι} {t u : σ} {i : ι} :
      Run step s is t → step t i u → Run step s (is ++ [i]) u

/-- Only the steps that meet `C` in the state they start from. -/
def Guarded (C : σ → ι → Prop) (step : σ → ι → σ → Prop) : σ → ι → σ → Prop :=
  fun s i t => C s i ∧ step s i t

/-- The relation of a step function that may fault: a fault has no successor. -/
def ofExcept (step : σ → ι → Except ε σ) : σ → ι → σ → Prop :=
  fun s i t => step s i = .ok t

/-- The step function that also faults where the condition is not met. -/
def guard (C : σ → ι → Prop) [∀ s i, Decidable (C s i)] (step : σ → ι → Except ε σ) :
    σ → ι → Except (Option ε) σ :=
  fun s i => if C s i then (step s i).mapError some else .error none

section Run

variable {step : σ → ι → σ → Prop} {s t u : σ} {is js : List ι}

@[simp] theorem run_nil_iff : Run step s [] t ↔ s = t := by
  apply Iff.intro
  · intro h
    -- only `nil` has no labels
    generalize hl : ([] : List ι) = l at h
    cases h with
    | nil => rfl
    | snoc _ _ => simp at hl
  · rintro rfl
    exact .nil

theorem run_snoc_iff {i : ι} :
    Run step s (is ++ [i]) u ↔ ∃ t, Run step s is t ∧ step t i u := by
  apply Iff.intro
  · intro h
    generalize hl : is ++ [i] = l at h
    cases h with
    | nil => simp at hl
    | snoc hrun hstep =>
      obtain ⟨rfl, hi⟩ := List.append_inj' hl rfl
      cases hi
      exact ⟨_, hrun, hstep⟩
  · rintro ⟨t, hrun, hstep⟩
    exact hrun.snoc hstep

theorem run_append_iff : Run step s (is ++ js) u ↔ ∃ t, Run step s is t ∧ Run step t js u := by
  induction js using List.reverseRecOn generalizing u with
  | nil => simp
  | append_singleton js j ih =>
    rw [← List.append_assoc, run_snoc_iff]
    simp only [ih, run_snoc_iff]
    apply Iff.intro
    · rintro ⟨v, ⟨t, hs, ht⟩, hv⟩
      exact ⟨t, hs, v, ht, hv⟩
    · rintro ⟨t, hs, v, ht, hv⟩
      exact ⟨v, ⟨t, hs, ht⟩, hv⟩

theorem run_cons_iff {i : ι} : Run step s (i :: is) u ↔ ∃ t, step s i t ∧ Run step t is u := by
  have hone : ∀ t, Run step s [i] t ↔ step s i t := fun t => by
    rw [← List.nil_append [i], run_snoc_iff]
    simp only [run_nil_iff, exists_eq_left']
  rw [← List.singleton_append, run_append_iff]
  simp only [hone]

/-- What holds initially and is preserved by every step holds at the end of every run. -/
theorem Run.invariant (Inv : σ → Prop) (h : Run step s is t) (hs : Inv s)
    (hstep : ∀ {u i v}, Inv u → step u i v → Inv v) : Inv t := by
  induction h with
  | nil => exact hs
  | snoc _ hlast ih => exact hstep ih hlast

/-- If every step keeps a property exactly when it meets the guard, the property holds at the end of
a run exactly when the whole run is guarded. -/
theorem Run.iff_guarded (Inv : σ → Prop) {P : σ → Prop} {C : σ → ι → Prop}
    (h : Run step s is t) (hInv : Inv s) (hP : P s)
    (hstep : ∀ {u i v}, Inv u → step u i v → Inv v ∧ (P v ↔ P u ∧ C u i)) :
    P t ↔ Run (Guarded C step) s is t := by
  apply Iff.intro
  · intro ht
    induction h with
    | nil => exact .nil
    | snoc hrun hlast ih =>
      -- the last step gives its own guard and the property before it
      have hu : Inv _ := hrun.invariant Inv hInv fun hu hs => (hstep hu hs).1
      obtain ⟨hPu, hC⟩ := (hstep hu hlast).2.mp ht
      exact (ih hPu).snoc ⟨hC, hlast⟩
  · intro hguarded
    have hboth : Inv t ∧ P t := hguarded.invariant (fun u => Inv u ∧ P u) ⟨hInv, hP⟩
      fun hu hs => ⟨(hstep hu.1 hs.2).1, (hstep hu.1 hs.2).2.mpr ⟨hu.2, hs.1⟩⟩
    exact hboth.2

/-- A map between the states that takes steps to steps takes runs to runs. -/
theorem Run.map {τ : Type*} {step' : τ → ι → τ → Prop} (f : σ → τ) (h : Run step s is t)
    (hstep : ∀ {u i v}, step u i v → step' (f u) i (f v)) : Run step' (f s) is (f t) := by
  induction h with
  | nil => exact .nil
  | snoc _ hlast ih => exact ih.snoc (hstep hlast)

/-- Where every step is matched by a run of a second system, possibly an empty one, so is every
run. -/
theorem Run.simulates {τ κ : Type*} {step' : τ → κ → τ → Prop} (R : τ → σ → Prop) {a : τ}
    (h : Run step s is t) (hs : R a s)
    (hstep : ∀ {b u i v}, R b u → step u i v → ∃ ks c, Run step' b ks c ∧ R c v) :
    ∃ ks b, Run step' a ks b ∧ R b t := by
  induction h with
  | nil => exact ⟨[], a, .nil, hs⟩
  | snoc _ hlast ih =>
    obtain ⟨ks, b, hrun, hb⟩ := ih
    obtain ⟨ls, c, hmatch, hc⟩ := hstep hb hlast
    exact ⟨ks ++ ls, c, run_append_iff.mpr ⟨b, hrun, hmatch⟩, hc⟩

end Run

/-! ## Systems given by a step function -/

section Function

variable {step : σ → ι → Except ε σ} {s t u : σ} {is : List ι}

theorem run_iff_foldlM : Run (ofExcept step) s is t ↔ is.foldlM step s = .ok t := by
  induction is using List.reverseRecOn generalizing t with
  | nil => simp [pure, Except.pure]
  | append_singleton is i ih =>
    rw [run_snoc_iff, List.foldlM_append]
    simp only [ih, List.foldlM_cons, List.foldlM_nil, bind_pure]
    cases is.foldlM step s with
    | error e => simp [bind, Except.bind]
    | ok u => simp [bind, Except.bind, ofExcept]

/-- What a run ends in can be read off the fold without writing the state down. -/
theorem exists_run_of_foldlM {β : Type*} (step : σ → ι → Except ε σ) (s : σ) (is : List ι)
    (f : σ → β) {b : β} (h : (is.foldlM step s).map f = .ok b) : ∃ t, Run (ofExcept step) s is t ∧ f t = b := by
  cases ht : is.foldlM step s with
  | error e => rw [ht] at h; cases h
  | ok t => rw [ht] at h; exact ⟨t, run_iff_foldlM.mpr ht, Except.ok.inj h⟩

theorem ofExcept_guard {C : σ → ι → Prop} [∀ s i, Decidable (C s i)] :
    ofExcept (guard C step) = Guarded C (ofExcept step) := by
  funext s i t
  rw [ofExcept, Guarded, ofExcept, guard, eq_iff_iff]
  split
  · rename_i hC
    cases step s i with
    | error e => simp [Except.mapError]
    | ok u => simp [Except.mapError, hC]
  · rename_i hC
    simp [hC]

theorem Run.deterministic (ht : Run (ofExcept step) s is t) (hu : Run (ofExcept step) s is u) :
    t = u :=
  Except.ok.inj ((run_iff_foldlM.mp ht).symm.trans (run_iff_foldlM.mp hu))

/-- A run is guarded exactly when every step is, in the state that the run before it has reached. -/
theorem run_guarded_iff {C : σ → ι → Prop} :
    Run (Guarded C (ofExcept step)) s is t ↔ Run (ofExcept step) s is t ∧
      ∀ pre i, pre ++ [i] <+: is → ∀ u, Run (ofExcept step) s pre u → C u i := by
  induction is using List.reverseRecOn generalizing t with
  | nil => simp
  | append_singleton is j ih =>
    rw [run_snoc_iff, run_snoc_iff]
    apply Iff.intro
    · rintro ⟨u, hguarded, hC, hlast⟩
      obtain ⟨hrun, hsteps⟩ := ih.mp hguarded
      refine ⟨⟨u, hrun, hlast⟩, fun pre i hpre v hv => ?_⟩
      rcases List.prefix_concat_iff.mp hpre with heq | hpre
      · -- the last step: its state is the one the run has reached
        obtain ⟨rfl, hi⟩ := List.append_inj' heq rfl
        obtain rfl := List.singleton_inj.mp hi
        rwa [← hrun.deterministic hv]
      · exact hsteps pre i hpre v hv
    · rintro ⟨⟨u, hrun, hlast⟩, hsteps⟩
      have hguarded := ih.mpr ⟨hrun, fun pre i hpre => hsteps pre i (hpre.trans
        (List.prefix_append _ _))⟩
      exact ⟨u, hguarded, hsteps is j (List.prefix_refl _) u hrun, hlast⟩

/-- A step function that never faults where the invariant holds has a run for every schedule. -/
theorem exists_run {Inv : σ → Prop} (hs : Inv s)
    (hstep : ∀ u i, Inv u → ∃ v, step u i = .ok v ∧ Inv v) (is : List ι) :
    ∃ t, Run (ofExcept step) s is t ∧ Inv t := by
  induction is using List.reverseRecOn with
  | nil => exact ⟨s, .nil, hs⟩
  | append_singleton is i ih =>
    obtain ⟨t, hrun, ht⟩ := ih
    obtain ⟨u, hu, hInv⟩ := hstep t i ht
    exact ⟨u, hrun.snoc hu, hInv⟩

end Function

/-! ## Rounds that leave something behind -/

section Rounds

variable {τ κ ω : Type*}

/-- The rounds of a loop one after the other, with what each of them leaves behind. -/
def rounds (round : σ → ι → Except ε (σ × ω)) (s : σ) : List ι → Except ε (σ × List ω)
  | [] => .ok (s, [])
  | i :: is =>
      match round s i with
      | .error e => .error e
      | .ok (t, out) => (rounds round t is).map fun (u, outs) => (u, out :: outs)

variable {round : σ → ι → Except ε (σ × ω)} {round' : τ → κ → Except ε (τ × ω)} {s : σ}

/-- A loop whose rounds look like those of another one, faults included, looks like it. -/
theorem rounds_map (Inv : σ → Prop) (f : σ → τ) (g : ι → κ) (hs : Inv s)
    (hround : ∀ t i, Inv t → (round t i).map (Prod.map f id) = round' (f t) (g i))
    (hInv : ∀ t i u out, Inv t → round t i = .ok (u, out) → Inv u) (is : List ι) :
    (rounds round s is).map (Prod.map f id) = rounds round' (f s) (is.map g) := by
  induction is generalizing s with
  | nil => rfl
  | cons i is ih =>
    have hfirst := hround s i hs
    rw [List.map_cons, rounds, rounds]
    cases hi : round s i with
    | error e =>
      rw [hi] at hfirst
      rw [← hfirst]
      rfl
    | ok p =>
      obtain ⟨t, out⟩ := p
      rw [hi] at hfirst
      rw [← hfirst]
      have hrest := ih (hInv s i t out hs hi)
      show ((rounds round t is).map _).map _ = (rounds round' (f t) (is.map g)).map _
      rw [← hrest]
      cases rounds round t is with
      | error e => rfl
      | ok q => rfl

/-- A loop that carries something along that never matters. -/
theorem rounds_fst {ρ : Type*} {round : σ × ρ → ι → Except ε ((σ × ρ) × ω)} {next : σ → κ → σ × ω}
    (Inv : σ → Prop) (g : ι → κ) (hs : Inv s)
    (hround : ∀ t p i, Inv t → ∃ q,
      round (t, p) i = .ok (((next t (g i)).1, q), (next t (g i)).2))
    (hInv : ∀ t i, Inv t → Inv (next t (g i)).1) (p : ρ) (is : List ι) :
    (rounds round (s, p) is).map (Prod.map Prod.fst id) =
      rounds (fun t i => .ok (next t i)) s (is.map g) := by
  apply rounds_map (fun t => Inv t.1) Prod.fst g hs
  · rintro ⟨t, p⟩ i ht
    obtain ⟨q, hq⟩ := hround t p i ht
    rw [hq]
    rfl
  · rintro ⟨t, p⟩ i ⟨u, p'⟩ out ht hu
    obtain ⟨q, hq⟩ := hround t p i ht
    rw [hq] at hu
    obtain ⟨hu, -⟩ := Prod.mk.inj (Except.ok.inj hu)
    obtain ⟨rfl, -⟩ := Prod.mk.inj hu
    exact hInv t i ht

theorem rounds_error {e : ε} {is : List ι} (hne : is ≠ [])
    (hround : ∀ i, round s i = .error e) : rounds round s is = .error e := by
  cases is with
  | nil => exact absurd rfl hne
  | cons i is => rw [rounds, hround i]

end Rounds

end Transition
