import MessageTransmitter.Library.Mutex
import MessageTransmitter.Library.Transition

/-!
# Monitors

An object that any number of threads call, each call under the object's one mutex.  A call is a
program of several steps, between which the other threads go on and the object may be in a state
that no call would leave behind.  Every run is linearizable: in the order in which the calls get
their answers, they do and answer what they would one after the other.
-/

open Mutex Transition

namespace Monitor

variable {ι σ α κ ρ : Type*}

/-- The code of the calls `α` on a state: from the first point of a call a step leads to a further
point or to an answer. -/
structure Program (σ α κ ρ : Type*) where
  entry : α → κ
  step : σ → κ → σ × (κ ⊕ ρ)

/-- The rest of a call, done without interruption, ends in `u` with the answer `r`. -/
inductive Finishes (p : Program σ α κ ρ) : σ → κ → σ → ρ → Prop
  | answer {s u : σ} {k : κ} {r : ρ} (hstep : p.step s k = (u, .inr r)) : Finishes p s k u r
  | step {s t u : σ} {k k' : κ} {r : ρ} (hstep : p.step s k = (t, .inl k'))
      (hrest : Finishes p t k' u r) : Finishes p s k u r

/-- A whole call, done without interruption, with its thread, its arguments and its answer. -/
def Alone (p : Program σ α κ ρ) (s : σ) (e : ι × α × ρ) (u : σ) : Prop :=
  Finishes p s (p.entry e.2.1) u e.2.2

section Finishes

variable {p : Program σ α κ ρ} {s t u : σ} {k : κ} {r r' : ρ}

theorem finishes_of_answer (hstep : p.step s k = (t, .inr r')) :
    Finishes p s k u r ↔ u = t ∧ r = r' := by
  apply Iff.intro
  · intro h
    cases h with
    | answer h =>
      obtain ⟨hu, hr⟩ := Prod.mk.inj (h.symm.trans hstep)
      exact ⟨hu, Sum.inr.inj hr⟩
    | step h _ => cases (Prod.mk.inj (h.symm.trans hstep)).2
  · rintro ⟨rfl, rfl⟩
    exact .answer hstep

theorem finishes_of_step (t : σ) (k' : κ) (hstep : p.step s k = (t, .inl k')) :
    Finishes p s k u r ↔ Finishes p t k' u r := by
  apply Iff.intro
  · intro h
    cases h with
    | answer h => cases (Prod.mk.inj (h.symm.trans hstep)).2
    | step h hrest =>
      obtain ⟨ht, hk⟩ := Prod.mk.inj (h.symm.trans hstep)
      obtain rfl := Sum.inl.inj hk
      exact ht ▸ hrest
  · exact .step hstep

end Finishes

/-- Where a thread is in its call. -/
inductive Phase (α κ ρ : Type*) where
  | idle
  -- the mutex is not taken yet
  | calling (a : α)
  | working (a : α) (k : κ)
  -- the mutex is not given back yet
  | answered (a : α) (r : ρ)

def Phase.inside : Phase α κ ρ → Prop
  | working _ _ | answered _ _ => True
  | _ => False

/-- What happens in a run: a thread starts a call, its call gets its answer, the call returns. -/
inductive Entry (ι α ρ : Type*) where
  | call (i : ι) (a : α)
  | effect (i : ι) (a : α) (r : ρ)
  | ret (i : ι) (r : ρ)

def Entry.thread : Entry ι α ρ → ι
  | call i _ | effect i _ _ | ret i _ => i

structure Callers (ι σ α κ ρ : Type*) where
  shared : σ
  owner : Option ι := none
  phase : ι → Phase α κ ρ := fun _ => .idle
  history : List (Entry ι α ρ) := []

/-- The calls that have got their answers, in order. -/
def effects (history : List (Entry ι α ρ)) : List (ι × α × ρ) :=
  history.filterMap fun e => match e with
    | .effect i a r => some (i, a, r)
    | _ => none

section Step

variable [DecidableEq ι]

def Callers.set (s : Callers ι σ α κ ρ) (i : ι) (phase : Phase α κ ρ) : Callers ι σ α κ ρ :=
  { s with phase := Function.update s.phase i phase }

/-- The steps of thread `i`. -/
inductive Step (p : Program σ α κ ρ) (s : Callers ι σ α κ ρ) (i : ι) : Callers ι σ α κ ρ → Prop
  | call (a : α) (hphase : s.phase i = .idle) :
      Step p s i { s.set i (.calling a) with history := s.history ++ [.call i a] }
  | lock (a : α) (hphase : s.phase i = .calling a) (hfree : s.owner = none) :
      Step p s i { s.set i (.working a (p.entry a)) with owner := some i }
  | work (a : α) (k k' : κ) (u : σ) (hphase : s.phase i = .working a k)
      (hstep : p.step s.shared k = (u, .inl k')) :
      Step p s i { s.set i (.working a k') with shared := u }
  | answer (a : α) (k : κ) (r : ρ) (u : σ) (hphase : s.phase i = .working a k)
      (hstep : p.step s.shared k = (u, .inr r)) :
      Step p s i { s.set i (.answered a r) with
        shared := u
        history := s.history ++ [.effect i a r] }
  | leave (a : α) (r : ρ) (hphase : s.phase i = .answered a r) :
      Step p s i { s.set i .idle with
        owner := none
        history := s.history ++ [.ret i r] }

/-- The entries of one finished call, and those of the call at hand. -/
def finished (i : ι) (e : α × ρ) : List (Entry ι α ρ) :=
  [.call i e.1, .effect i e.1 e.2, .ret i e.2]

def unfinished (i : ι) : Phase α κ ρ → List (Entry ι α ρ)
  | .idle => []
  | .calling a | .working a _ => [.call i a]
  | .answered a r => [.call i a, .effect i a r]

/-- What thread `i` has done: whole calls, each with its answer between its start and its return and
nothing else, and then the beginning of one. -/
def InOrder (history : List (Entry ι α ρ)) (phase : Phase α κ ρ) (i : ι) : Prop :=
  ∃ done : List (α × ρ), history.filter (fun e => e.thread = i) =
    done.flatMap (finished i) ++ unfinished i phase

/-- The calls that have got their answers did and answered what they would alone, in this order;
the call in the critical section, if there is one, is on its way from there. -/
structure Linearized (p : Program σ α κ ρ) (s₀ : σ) (s : Callers ι σ α κ ρ) (base : σ) : Prop where
  mutex : Guards s.owner fun i => (s.phase i).inside
  alone : Run (Alone p) s₀ (effects s.history) base
  working : ∀ i a k, s.phase i = .working a k →
    ∀ u r, Finishes p s.shared k u r → Finishes p base (p.entry a) u r
  settled : (∀ i a k, s.phase i ≠ .working a k) → s.shared = base
  inOrder : ∀ i, InOrder s.history (s.phase i) i

variable {p : Program σ α κ ρ} {s₀ base : σ} {s t : Callers ι σ α κ ρ} {i j : ι}

@[simp] theorem set_phase_self (s : Callers ι σ α κ ρ) (i : ι) (phase : Phase α κ ρ) :
    (s.set i phase).phase i = phase := by
  simp [Callers.set]

theorem set_phase_of_ne (s : Callers ι σ α κ ρ) (h : j ≠ i) (phase : Phase α κ ρ) :
    (s.set i phase).phase j = s.phase j := by
  simp [Callers.set, h]

theorem linearized_start (p : Program σ α κ ρ) (s₀ : σ) :
    Linearized p s₀ ({ shared := s₀ } : Callers ι σ α κ ρ) s₀ where
  mutex := guards_none.mpr fun _ h => h
  alone := .nil
  working := fun _ _ _ h => by cases h
  settled := fun _ => rfl
  inOrder := fun _ => ⟨[], rfl⟩

/-- A thread that goes from one phase to another writes down what that takes. -/
theorem inOrder_set {history : List (Entry ι α ρ)} (h : ∀ j, InOrder history (s.phase j) j)
    (more : List (Entry ι α ρ)) (phase : Phase α κ ρ) (hmore : ∀ e ∈ more, e.thread = i)
    (hnew : ∃ done, unfinished i (s.phase i) ++ more = List.flatMap (finished i) done ++
      unfinished i phase) (j : ι) :
    InOrder (history ++ more) ((s.set i phase).phase j) j := by
  obtain ⟨done, hdone⟩ := h j
  by_cases hj : j = i
  · subst hj
    obtain ⟨done', hdone'⟩ := hnew
    refine ⟨done ++ done', ?_⟩
    rw [set_phase_self, List.filter_append, hdone, List.filter_eq_self.mpr, List.append_assoc,
      hdone', List.flatMap_append, List.append_assoc]
    exact fun e he => decide_eq_true (hmore e he)
  · refine ⟨done, ?_⟩
    rw [set_phase_of_ne s hj, List.filter_append, hdone, List.filter_eq_nil_iff.mpr, List.append_nil]
    exact fun e he heq => hj ((of_decide_eq_true heq).symm.trans (hmore e he))

theorem phase_of_set {phase phase' : Phase α κ ρ} (h : (s.set i phase).phase j = phase') :
    j = i ∧ phase = phase' ∨ j ≠ i ∧ s.phase j = phase' := by
  by_cases hj : j = i
  · rw [hj, set_phase_self] at h
    exact .inl ⟨hj, h⟩
  · rw [set_phase_of_ne s hj] at h
    exact .inr ⟨hj, h⟩

theorem inside_set_of_ne {phase : Phase α κ ρ} (hj : j ≠ i) :
    ((s.set i phase).phase j).inside ↔ (s.phase j).inside := by
  rw [set_phase_of_ne s hj]

/-- A thread that neither enters nor leaves the critical section leaves the mutex as it is. -/
theorem Linearized.stay (h : Linearized p s₀ s base) {phase : Phase α κ ρ}
    (hinside : phase.inside ↔ (s.phase i).inside) :
    Guards s.owner fun j => ((s.set i phase).phase j).inside := by
  refine h.mutex.stay fun j => ?_
  by_cases hj : j = i
  · rw [hj, set_phase_self]
    exact hinside
  · exact inside_set_of_ne hj

/-- The one call in the critical section. -/
theorem Linearized.eq_of_inside (h : Linearized p s₀ s base) (hi : (s.phase i).inside)
    (hj : (s.phase j).inside) : j = i :=
  h.mutex.exclusive hj hi

theorem Linearized.call (h : Linearized p s₀ s base) {a : α} (hphase : s.phase i = .idle) :
    Linearized p s₀ { s.set i (.calling a) with history := s.history ++ [.call i a] } base where
  mutex := h.stay (by rw [hphase]; exact Iff.rfl)
  alone := by
    show Run (Alone p) s₀ (effects (s.history ++ [.call i a])) base
    rw [effects, List.filterMap_append]
    exact (List.append_nil (effects s.history)).symm ▸ h.alone
  working := fun j a k hj => by
    rcases phase_of_set hj with ⟨-, hj⟩ | ⟨-, hj⟩
    · cases hj
    · exact h.working j a k hj
  settled := fun hnone => h.settled fun j a k hj => by
    have hne : j ≠ i := by
      rintro rfl
      rw [hphase] at hj
      cases hj
    exact hnone j a k ((set_phase_of_ne s hne _).trans hj)
  inOrder := inOrder_set h.inOrder [_] _ (fun e he => by rw [List.mem_singleton.mp he]; rfl)
    ⟨[], by rw [hphase]; rfl⟩

theorem Linearized.lock (h : Linearized p s₀ s base) {a : α} (hphase : s.phase i = .calling a)
    (hfree : s.owner = none) :
    Linearized p s₀ { s.set i (.working a (p.entry a)) with owner := some i } base := by
  have hout : ∀ j, ¬ (s.phase j).inside := guards_none.mp (hfree ▸ h.mutex)
  have hshared : s.shared = base := h.settled fun j a k hj => hout j (by rw [hj]; trivial)
  have horder := inOrder_set h.inOrder [] (.working a (p.entry a)) (i := i)
    (fun e he => absurd he List.not_mem_nil) ⟨[], by rw [hphase]; rfl⟩
  rw [List.append_nil] at horder
  exact {
    mutex := Guards.acquire (hfree ▸ h.mutex) (by
      show ((s.set i _).phase i).inside
      rw [set_phase_self]
      trivial) fun j hj => inside_set_of_ne hj
    alone := h.alone
    working := fun j b k hj u r hrest => by
      rcases phase_of_set hj with ⟨-, hj⟩ | ⟨-, hj⟩
      · obtain ⟨rfl, rfl⟩ := Phase.working.inj hj
        exact hshared ▸ hrest
      · exact absurd (show (s.phase j).inside by rw [hj]; trivial) (hout j)
    settled := fun _ => hshared
    inOrder := horder }

theorem Linearized.work (h : Linearized p s₀ s base) {a : α} {k k' : κ} {u : σ}
    (hphase : s.phase i = .working a k) (hstep : p.step s.shared k = (u, .inl k')) :
    Linearized p s₀ { s.set i (.working a k') with shared := u } base := by
  have hin : (s.phase i).inside := by rw [hphase]; trivial
  have horder := inOrder_set h.inOrder [] (.working a k') (i := i)
    (fun e he => absurd he List.not_mem_nil) ⟨[], by rw [hphase]; rfl⟩
  rw [List.append_nil] at horder
  exact {
    mutex := h.stay (by rw [hphase]; exact Iff.rfl)
    alone := h.alone
    working := fun j b l hj v r hrest => by
      rcases phase_of_set hj with ⟨-, hj⟩ | ⟨hne, hj⟩
      · obtain ⟨rfl, rfl⟩ := Phase.working.inj hj
        exact h.working i a k hphase v r (.step hstep hrest)
      · exact absurd (h.eq_of_inside hin (by rw [hj]; trivial)) hne
    settled := fun hnone => absurd (set_phase_self s i _) (hnone i a k')
    inOrder := horder }

/-- The call gets its answer: from now on it counts as done. -/
theorem Linearized.answer (h : Linearized p s₀ s base) {a : α} {k : κ} {r : ρ} {u : σ}
    (hphase : s.phase i = .working a k) (hstep : p.step s.shared k = (u, .inr r)) :
    Linearized p s₀ { s.set i (.answered a r) with
      shared := u
      history := s.history ++ [.effect i a r] } u := by
  have hin : (s.phase i).inside := by rw [hphase]; trivial
  exact {
    mutex := h.stay (by rw [hphase]; exact Iff.rfl)
    alone := by
      show Run (Alone p) s₀ (effects (s.history ++ [.effect i a r])) u
      rw [effects, List.filterMap_append]
      exact h.alone.snoc (h.working i a k hphase u r (.answer hstep))
    working := fun j b l hj => by
      rcases phase_of_set hj with ⟨-, hj⟩ | ⟨hne, hj⟩
      · cases hj
      · exact absurd (h.eq_of_inside hin (by rw [hj]; trivial)) hne
    settled := fun _ => rfl
    inOrder := inOrder_set h.inOrder [_] _ (fun e he => by rw [List.mem_singleton.mp he]; rfl)
      ⟨[], by rw [hphase]; rfl⟩ }

theorem Linearized.leave (h : Linearized p s₀ s base) {a : α} {r : ρ}
    (hphase : s.phase i = .answered a r) :
    Linearized p s₀ { s.set i .idle with
      owner := none
      history := s.history ++ [.ret i r] } base := by
  have hin : (s.phase i).inside := by rw [hphase]; trivial
  have hshared : s.shared = base := h.settled fun j b k hj => by
    obtain rfl := h.eq_of_inside hin (show (s.phase j).inside by rw [hj]; trivial)
    rw [hphase] at hj
    cases hj
  exact {
    mutex := h.mutex.release hin (by
      show ¬ ((s.set i _).phase i).inside
      rw [set_phase_self]
      exact id) fun j hj => inside_set_of_ne hj
    alone := by
      show Run (Alone p) s₀ (effects (s.history ++ [.ret i r])) base
      rw [effects, List.filterMap_append]
      exact (List.append_nil (effects s.history)).symm ▸ h.alone
    working := fun j b k hj => by
      rcases phase_of_set hj with ⟨-, hj⟩ | ⟨hne, hj⟩
      · cases hj
      · exact absurd (h.eq_of_inside hin (by rw [hj]; trivial)) hne
    settled := fun _ => hshared
    inOrder := inOrder_set h.inOrder [_] _ (fun e he => by rw [List.mem_singleton.mp he]; rfl)
      ⟨[(a, r)], by rw [hphase]; rfl⟩ }

theorem Linearized.step (h : Linearized p s₀ s base) (hstep : Step p s i t) :
    ∃ base', Linearized p s₀ t base' := by
  cases hstep with
  | call a hphase => exact ⟨base, h.call hphase⟩
  | lock a hphase hfree => exact ⟨base, h.lock hphase hfree⟩
  | work a k k' u hphase hstep => exact ⟨base, h.work hphase hstep⟩
  | answer a k r u hphase hstep => exact ⟨u, h.answer hphase hstep⟩
  | leave a r hphase => exact ⟨base, h.leave hphase⟩

theorem linearized_run {is : List ι} (hrun : Run (Step p) { shared := s₀ } is s) :
    ∃ base, Linearized p s₀ s base :=
  hrun.invariant (fun t => ∃ base, Linearized p s₀ t base) ⟨s₀, linearized_start p s₀⟩
    fun hu hstep => by
      obtain ⟨_, h⟩ := hu
      exact h.step hstep

/-! ## Views -/

section View

variable {τ : Type*} {q : Program τ α κ ρ}

/-- The callers of the object, of which only a view is taken. -/
def Callers.view (f : σ → τ) (s : Callers ι σ α κ ρ) : Callers ι τ α κ ρ where
  shared := f s.shared
  owner := s.owner
  phase := s.phase
  history := s.history

/-- Where the calls act on the view as the calls of another object do, they are calls of that object. -/
theorem Step.view (f : σ → τ) (hentry : ∀ a, q.entry a = p.entry a)
    (hview : ∀ u k, q.step (f u) k = (p.step u k).map f id) (h : Step p s i t) :
    Step q (s.view f) i (t.view f) := by
  cases h with
  | call a hphase => exact .call a hphase
  | lock a hphase hfree =>
    have hlock := Step.lock (p := q) (s := s.view f) a hphase hfree
    rw [hentry] at hlock
    exact hlock
  | work a k k' u hphase hstep =>
    refine .work a k k' (f u) hphase ?_
    rw [show (s.view f).shared = f s.shared from rfl, hview, hstep]
    rfl
  | answer a k r u hphase hstep =>
    refine .answer a k r (f u) hphase ?_
    rw [show (s.view f).shared = f s.shared from rfl, hview, hstep]
    rfl
  | leave a r hphase => exact .leave a r hphase

end View

end Step

end Monitor
