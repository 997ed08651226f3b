import Mathlib.Data.Nat.Nth
import Mathlib.Order.Preorder.Finite
import MessageTransmitter.Library.Transition

/-!
# Infinite executions

What a system does for ever: executions, the two notions of fairness of an actor, and the rule that
an actor which keeps acting and thereby lowers a variant reaches its goal.
-/

namespace Transition

variable {σ ι : Type*} {step : σ → ι → σ → Prop}

/-- An execution without end. -/
structure Execution (step : σ → ι → σ → Prop) where
  state : ℕ → σ
  label : ℕ → ι
  next : ∀ n, step (state n) (label n) (state (n + 1))

namespace Execution

variable {x : Execution step}

/-- What is the case again and again. -/
def Recurs (P : ℕ → Prop) : Prop := ∀ n, ∃ m, n ≤ m ∧ P m

/-- An actor that can move from some time on without a break moves. -/
def WeaklyFair (x : Execution step) (enabled : σ → Prop) (acts : ι → Prop) : Prop :=
  ∀ n, (∀ m, n ≤ m → enabled (x.state m)) → ∃ m, n ≤ m ∧ acts (x.label m)

/-- An actor that can move again and again moves again and again. -/
def StronglyFair (x : Execution step) (enabled : σ → Prop) (acts : ι → Prop) : Prop :=
  Recurs (fun n => enabled (x.state n)) → Recurs fun n => acts (x.label n)

/-- The execution from time `n` on. -/
def drop (x : Execution step) (n : ℕ) : Execution step where
  state m := x.state (n + m)
  label m := x.label (n + m)
  next m := x.next (n + m)

theorem Recurs.drop {P : ℕ → Prop} (h : Recurs P) (n : ℕ) : Recurs fun m => P (n + m) := by
  intro k
  obtain ⟨m, hm, hP⟩ := h (n + k)
  have heq : n + (m - n) = m := by omega
  refine ⟨m - n, by omega, ?_⟩
  show P (n + (m - n))
  rwa [heq]

theorem Recurs.of_drop {P : ℕ → Prop} {n : ℕ} (h : Recurs fun m => P (n + m)) : Recurs P := by
  intro k
  obtain ⟨m, hm, hP⟩ := h k
  exact ⟨n + m, by omega, hP⟩

theorem WeaklyFair.drop {enabled : σ → Prop} {acts : ι → Prop} (h : x.WeaklyFair enabled acts)
    (n : ℕ) : (x.drop n).WeaklyFair enabled acts := by
  intro k hk
  obtain ⟨m, hm, hacts⟩ := h (n + k) fun m hm => by
    have heq : n + (m - n) = m := by omega
    have hen : enabled (x.state (n + (m - n))) := hk (m - n) (by omega)
    rwa [heq] at hen
  have heq : n + (m - n) = m := by omega
  refine ⟨m - n, by omega, ?_⟩
  show acts (x.label (n + (m - n)))
  rwa [heq]

theorem StronglyFair.drop {enabled : σ → Prop} {acts : ι → Prop} (h : x.StronglyFair enabled acts)
    (n : ℕ) : (x.drop n).StronglyFair enabled acts :=
  fun hrec => Recurs.drop (P := fun m => acts (x.label m)) (h (Recurs.of_drop hrec)) n

theorem StronglyFair.weaklyFair {enabled enabled' : σ → Prop} {acts : ι → Prop}
    (h : x.StronglyFair enabled acts) (himp : ∀ s, enabled' s → enabled s) :
    x.WeaklyFair enabled' acts := by
  intro n hn
  refine h (fun k => ?_) n
  exact ⟨max n k, Nat.le_max_right n k, himp _ (hn _ (Nat.le_max_left n k))⟩

/-- A state that only an actor's own steps end, and in which the actor can move, comes to its end. -/
theorem WeaklyFair.exists_act {enabled P : σ → Prop} {acts : ι → Prop}
    (h : x.WeaklyFair enabled acts) (hen : ∀ s, P s → enabled s)
    (hkeep : ∀ {s i t}, P s → ¬ acts i → step s i t → P t) {n : ℕ} (hn : P (x.state n)) :
    ∃ m, n ≤ m ∧ P (x.state m) ∧ acts (x.label m) := by
  by_contra hnever
  have hstay : ∀ m, n ≤ m → P (x.state m) := fun m hm => by
    induction hm with
    | refl => exact hn
    | @step m hm ih => exact hkeep ih (fun hact => hnever ⟨m, hm, ih, hact⟩) (x.next m)
  obtain ⟨m, hm, hact⟩ := h n fun m hm => hen _ (hstay m hm)
  exact hnever ⟨m, hm, hstay m hm, hact⟩

/-- The same for an actor that has to be able to move only again and again. -/
theorem StronglyFair.exists_act {enabled P : σ → Prop} {acts : ι → Prop}
    (h : x.StronglyFair enabled acts) (hen : Recurs fun n => P (x.state n) → enabled (x.state n))
    (hkeep : ∀ {s i t}, P s → ¬ acts i → step s i t → P t) {n : ℕ} (hn : P (x.state n)) :
    ∃ m, n ≤ m ∧ P (x.state m) ∧ acts (x.label m) := by
  by_contra hnever
  have hstay : ∀ m, n ≤ m → P (x.state m) := fun m hm => by
    induction hm with
    | refl => exact hn
    | @step m hm ih => exact hkeep ih (fun hact => hnever ⟨m, hm, ih, hact⟩) (x.next m)
  have hrec : Recurs fun m => enabled (x.state m) := fun k => by
    obtain ⟨m, hm, himp⟩ := hen (max n k)
    exact ⟨m, by omega, himp (hstay m (by omega))⟩
  obtain ⟨m, hm, hact⟩ := h hrec n
  exact hnever ⟨m, hm, hstay m hm, hact⟩

/-- What the steps preserve holds for ever. -/
theorem always {Inv : σ → Prop} (x : Execution step) (h : Inv (x.state 0))
    (hstep : ∀ {s i t}, Inv s → step s i t → Inv t) : ∀ n, Inv (x.state n)
  | 0 => h
  | n + 1 => hstep (always x h hstep n) (x.next n)

/-- What the steps preserve holds from the first time on at which it is the case. -/
theorem always_from (x : Execution step) (Inv : σ → Prop) {n : ℕ} (h : Inv (x.state n))
    (hstep : ∀ {s i t}, Inv s → step s i t → Inv t) : ∀ m, n ≤ m → Inv (x.state m) := by
  intro m hm
  have hlater := (x.drop n).always h hstep (m - n)
  show Inv (x.state m)
  rw [← Nat.add_sub_cancel' hm]
  exact hlater

/-- Every state of an execution is reached by a run. -/
theorem exists_run_state (x : Execution step) (n : ℕ) : ∃ is, Run step (x.state 0) is (x.state n) := by
  induction n with
  | zero => exact ⟨[], .nil⟩
  | succ n ih =>
    obtain ⟨is, hrun⟩ := ih
    exact ⟨is ++ [x.label n], hrun.snoc (x.next n)⟩

/-- A count that goes up again and again, and never by more than one, comes to every number that is
still ahead of it. -/
theorem exists_count_eq {f : σ → ℕ}
    (hone : ∀ n, f (x.state (n + 1)) = f (x.state n) ∨ f (x.state (n + 1)) = f (x.state n) + 1)
    (hup : Recurs fun n => f (x.state (n + 1)) = f (x.state n) + 1) {n v : ℕ}
    (hv : f (x.state n) ≤ v) :
    ∃ m, n ≤ m ∧ f (x.state m) = v ∧ f (x.state (m + 1)) = v + 1 := by
  have hmono : Monotone fun m => f (x.state m) := monotone_nat_of_le_succ fun m => by
    rcases hone m with heq | heq
    · exact heq.ge
    · exact heq ▸ Nat.le_succ _
  -- it gets beyond every number
  have hbeyond : ∀ w, ∃ m, n ≤ m ∧ w < f (x.state m) := fun w => by
    induction w with
    | zero =>
      obtain ⟨m, hm, heq⟩ := hup n
      exact ⟨m + 1, by omega, by omega⟩
    | succ w ih =>
      obtain ⟨k, hk, hlt⟩ := ih
      obtain ⟨m, hm, heq⟩ := hup k
      have hle : f (x.state k) ≤ f (x.state m) := hmono hm
      exact ⟨m + 1, by omega, by omega⟩
  -- the first time that it is beyond `v`, it has just been there
  classical
  have hfirst := Nat.find_spec (hbeyond v)
  have hbefore := fun k => Nat.find_min (m := k) (hbeyond v)
  generalize Nat.find (hbeyond v) = m at hfirst hbefore
  obtain ⟨hm, hlt⟩ := hfirst
  have hne : m ≠ n := fun heq => by
    rw [heq] at hlt
    omega
  obtain ⟨k, rfl⟩ : ∃ k, m = k + 1 := ⟨m - 1, by omega⟩
  have hle : f (x.state k) ≤ v := by
    have hnot := hbefore k (Nat.lt_succ_self k)
    omega
  rcases hone k with heq | heq
  · omega
  · exact ⟨k, by omega, by omega, by omega⟩

/-- The variant rule: an actor acts again and again; no step raises the variant and its own steps
lower it, until one of the steps is a goal. -/
theorem exists_of_variant (x : Execution step) {acts : ι → Prop} (goal : σ → ι → Prop) (f : σ → ℕ)
    (hacts : Recurs fun n => acts (x.label n))
    (hle : ∀ n, ¬ goal (x.state n) (x.label n) → f (x.state (n + 1)) ≤ f (x.state n))
    (hlt : ∀ n, ¬ goal (x.state n) (x.label n) → acts (x.label n) →
      f (x.state (n + 1)) < f (x.state n)) :
    ∃ n, goal (x.state n) (x.label n) := by
  by_contra hnever
  rw [not_exists] at hnever
  have hmono : ∀ n k, f (x.state (n + k)) ≤ f (x.state n) := fun n k => by
    induction k with
    | zero => exact Nat.le_refl _
    | succ k ih => exact Nat.le_trans (hle (n + k) (hnever _)) ih
  -- the variant would fall for ever
  have hfall : ∀ v n, f (x.state n) ≤ v → False := fun v => by
    induction v with
    | zero =>
      intro n hn
      obtain ⟨m, hm, hact⟩ := hacts n
      have hdown := hlt m (hnever m) hact
      have hless := hmono n (m - n)
      rw [Nat.add_sub_cancel' hm] at hless
      omega
    | succ v ih =>
      intro n hn
      obtain ⟨m, hm, hact⟩ := hacts n
      have hdown := hlt m (hnever m) hact
      have hless := hmono n (m - n)
      rw [Nat.add_sub_cancel' hm] at hless
      exact ih (m + 1) (by omega)
  exact hfall _ 0 (Nat.le_refl _)

/-- The rule for a critical section: while it lasts the actor is enabled, only its own steps change
anything about it, and each of them brings its end nearer. -/
theorem WeaklyFair.exists_of_variant {enabled : σ → Prop} {acts : ι → Prop}
    (h : x.WeaklyFair enabled acts) (goal : σ → ι → Prop) (f : σ → ℕ) (hstart : enabled (x.state 0))
    (hkeep : ∀ n, enabled (x.state n) → ¬ goal (x.state n) (x.label n) →
      enabled (x.state (n + 1)) ∧ f (x.state (n + 1)) ≤ f (x.state n) ∧
        (acts (x.label n) → f (x.state (n + 1)) < f (x.state n))) :
    ∃ n, goal (x.state n) (x.label n) := by
  by_contra hnever
  rw [not_exists] at hnever
  have hen : ∀ n, enabled (x.state n) := fun n => by
    induction n with
    | zero => exact hstart
    | succ n ih => exact (hkeep n ih (hnever n)).1
  have hacts : Recurs fun n => acts (x.label n) := fun n => h n fun m _ => hen m
  obtain ⟨n, hn⟩ := x.exists_of_variant goal f hacts
    (fun n hn => (hkeep n (hen n) hn).2.1) fun n hn => (hkeep n (hen n) hn).2.2
  exact hnever n hn

end Execution

/-! ## Executions from finite runs -/

/-- The execution after one more step in front. -/
def Execution.cons (x : Execution step) {s : σ} {i : ι} (h : step s i (x.state 0)) :
    Execution step where
  state n := n.casesOn s x.state
  label n := n.casesOn i x.label
  next n := by
    cases n with
    | zero => exact h
    | succ n => exact x.next n

/-- Every finite run can be put in front of an execution. -/
theorem exists_execution {s t : σ} {is : List ι} (hrun : Run step s is t) (x : Execution step)
    (hx : x.state 0 = t) :
    ∃ y : Execution step, y.state 0 = s ∧
      (∀ n, n ≤ is.length → Run step s (is.take n) (y.state n)) ∧
      (∀ n, n < is.length → is[n]? = some (y.label n)) ∧
      ∀ n, y.state (is.length + n) = x.state n ∧ y.label (is.length + n) = x.label n := by
  induction is using List.reverseRecOn generalizing t x with
  | nil =>
    obtain rfl := run_nil_iff.mp hrun
    refine ⟨x, hx, fun n hn => ?_, fun n hn => absurd hn (Nat.not_lt_zero n), fun n => ?_⟩
    · obtain rfl := Nat.le_zero.mp hn
      rw [hx]
      exact .nil
    · rw [List.length_nil, Nat.zero_add]
      exact ⟨rfl, rfl⟩
  | append_singleton is i ih =>
    obtain ⟨u, hinit, hlast⟩ := run_snoc_iff.mp hrun
    obtain ⟨y, hstart, htake, hlabel, hy⟩ := ih hinit (x.cons (hx ▸ hlast)) rfl
    have hlen : (is ++ [i]).length = is.length + 1 := by simp
    refine ⟨y, hstart, fun n hn => ?_, fun n hn => ?_, fun n => ?_⟩
    · rcases Nat.lt_or_ge is.length n with hlt | hle
      · -- the whole run, after which `x` begins
        obtain rfl : n = is.length + 1 := by omega
        rw [← hlen, List.take_length, hlen, (hy 1).1]
        exact hx ▸ hrun
      · rw [List.take_append_of_le_length hle]
        exact htake n hle
    · rcases Nat.lt_or_ge n is.length with hlt | hle
      · rw [List.getElem?_append_left hlt]
        exact hlabel n hlt
      · obtain rfl : n = is.length := by omega
        rw [List.getElem?_concat_length]
        exact congrArg some (hy 0).2.symm
    · rw [hlen, Nat.add_assoc, Nat.add_comm 1 n]
      exact hy (n + 1)

/-- A sequence of labels that never gets stuck. -/
theorem exists_execution_of_labels (label : ℕ → ι) (P : ℕ → σ → Prop) {s : σ} (hs : P 0 s)
    (hstep : ∀ n s, P n s → ∃ t, step s (label n) t ∧ P (n + 1) t) :
    ∃ x : Execution step, x.state 0 = s ∧ (∀ n, x.label n = label n) ∧ ∀ n, P n (x.state n) := by
  have hnext : ∀ n (s : { s // P n s }), ∃ t : { t // P (n + 1) t }, step s.1 (label n) t.1 := by
    intro n s
    obtain ⟨t, hst, ht⟩ := hstep n s.1 s.2
    exact ⟨⟨t, ht⟩, hst⟩
  choose next hnext using hnext
  let states : (n : ℕ) → { s // P n s } := fun n => n.rec ⟨s, hs⟩ next
  exact ⟨⟨fun n => (states n).1, label, fun n => hnext n (states n)⟩, rfl, fun _ => rfl,
    fun n => (states n).2⟩

/-- A run that leads from every state of some kind to a state of that kind can be repeated for
ever. -/
theorem exists_execution_of_cycle (Inv : σ → Prop) {is : List ι} (hne : 0 < is.length) {s : σ}
    (hs : Inv s) (hcycle : ∀ s, Inv s → ∃ t, Run step s is t ∧ Inv t) :
    ∃ x : Execution step, x.state 0 = s ∧ (∀ n, is[n % is.length]? = some (x.label n)) ∧
      ∀ n, ∃ s', Inv s' ∧ Run step s' (is.take (n % is.length)) (x.state n) := by
  have hlt : ∀ n, n % is.length < is.length := fun n => Nat.mod_lt n hne
  -- where a state lies on its way round
  let P : ℕ → σ → Prop := fun n s => ∃ s' t, Inv s' ∧ Run step s' (is.take (n % is.length)) s ∧
    Run step s (is.drop (n % is.length)) t ∧ Inv t
  have hbegin : ∀ n s, n % is.length = 0 → Inv s → P n s := by
    intro n s hn hs
    obtain ⟨t, hrun, ht⟩ := hcycle s hs
    refine ⟨s, t, hs, ?_, ?_, ht⟩
    · rw [hn]
      exact .nil
    · rw [hn]
      exact hrun
  have hround : ∀ n s, P n s → ∃ t, step s (is.get ⟨n % is.length, hlt n⟩) t ∧ P (n + 1) t := by
    intro n s ⟨s', t, hs', hbefore, hafter, ht⟩
    have hmod : (n + 1) % is.length = (n % is.length + 1) % is.length :=
      (Nat.mod_add_mod n is.length 1).symm
    rw [List.drop_eq_getElem_cons (hlt n), run_cons_iff] at hafter
    obtain ⟨u, hstep, hrest⟩ := hafter
    refine ⟨u, hstep, ?_⟩
    by_cases hlast : n % is.length + 1 = is.length
    · -- once round
      rw [hlast, List.drop_length] at hrest
      obtain rfl := run_nil_iff.mp hrest
      rw [hlast, Nat.mod_self] at hmod
      exact hbegin (n + 1) u hmod ht
    · rw [Nat.mod_eq_of_lt (Nat.lt_of_le_of_ne (hlt n) hlast)] at hmod
      refine ⟨s', t, hs', ?_, ?_, ht⟩
      · rw [hmod, List.take_succ_eq_append_getElem (hlt n)]
        exact hbefore.snoc hstep
      · rw [hmod]
        exact hrest
  obtain ⟨x, hstart, hlabel, hx⟩ :=
    exists_execution_of_labels _ P (hbegin 0 s (Nat.zero_mod _) hs) hround
  refine ⟨x, hstart, fun n => ?_, fun n => ?_⟩
  · rw [hlabel n]
    exact List.getElem?_eq_getElem (hlt n)
  · obtain ⟨s', t, hs', hbefore, -, -⟩ := hx n
    exact ⟨s', hs', hbefore⟩

/-! ## The execution of a component -/

section Component

variable {τ κ : Type*} {step' : τ → κ → τ → Prop} {f : σ → τ} {g : ι → Option κ}

/-- `y` is what `x` does in one of its components: `f` shows the state of the component and `g` its
part in a step, if it has one.  The `n`-th step of `y` is the one of `x` at `time n`. -/
structure Execution.Projects (x : Execution step) (f : σ → τ) (g : ι → Option κ) (y : Execution step')
    (time : ℕ → ℕ) : Prop where
  strictMono : StrictMono time
  start : y.state 0 = f (x.state 0)
  state : ∀ n, f (x.state (time n)) = y.state n
  state_succ : ∀ n, f (x.state (time n + 1)) = y.state (n + 1)
  label : ∀ n, g (x.label (time n)) = some (y.label n)
  exists_time : ∀ m j, g (x.label m) = some j → ∃ n, time n = m
  -- the next step of the component finds it as it is
  exists_state : ∀ m, ∃ n, m ≤ time n ∧ f (x.state m) = y.state n

/-- A component whose steps are the only ones to change it, and that has steps again and again, has
an execution of its own. -/
theorem Execution.exists_projects (x : Execution step) (f : σ → τ) (g : ι → Option κ)
    (hstep : ∀ {s i t j}, step s i t → g i = some j → step' (f s) j (f t))
    (hquiet : ∀ {s i t}, step s i t → g i = none → f t = f s)
    (hrec : Execution.Recurs fun n => (g (x.label n)).isSome = true) :
    ∃ (y : Execution step') (time : ℕ → ℕ), x.Projects f g y time := by
  let p : ℕ → Prop := fun n => (g (x.label n)).isSome = true
  have hinf : (Set.ofPred p).Infinite := Set.infinite_of_forall_exists_gt fun n => by
    obtain ⟨m, hm, hp⟩ := hrec (n + 1)
    exact ⟨m, hp, hm⟩
  have hmono : StrictMono (Nat.nth p) := Nat.nth_strictMono hinf
  have hconst : ∀ {a b}, a ≤ b → (∀ m, a ≤ m → m < b → ¬ p m) →
      f (x.state b) = f (x.state a) := fun {a b} hab hnone => by
    induction hab with
    | refl => rfl
    | @step b hb ih =>
      have hlabel := Option.not_isSome_iff_eq_none.mp (hnone b hb (Nat.lt_succ_self b))
      rw [hquiet (x.next b) hlabel]
      exact ih fun m hm hlt => hnone m hm (Nat.lt_succ_of_lt hlt)
  have hlabel : ∀ n, g (x.label (Nat.nth p n)) =
      some ((g (x.label (Nat.nth p n))).get (Nat.nth_mem_of_infinite hinf n)) := fun n =>
    (Option.some_get _).symm
  have hsucc : ∀ n, f (x.state (Nat.nth p (n + 1))) = f (x.state (Nat.nth p n + 1)) := fun n => by
    refine hconst (hmono (Nat.lt_succ_self n)) fun m hm hlt hp => ?_
    have hcount := Nat.nth_count hp
    rw [← hcount] at hm hlt
    have hlow := hmono.lt_iff_lt.mp (Nat.lt_of_succ_le hm)
    have hhigh := hmono.lt_iff_lt.mp hlt
    omega
  have hnext : ∀ m, m ≤ Nat.nth p (Nat.count p m) ∧
      f (x.state (Nat.nth p (Nat.count p m))) = f (x.state m) := fun m => by
    have hle : m ≤ Nat.nth p (Nat.count p m) := Nat.le_nth_count hinf m
    refine ⟨hle, hconst hle fun k hk hlt hp => ?_⟩
    have hcount := hmono.monotone (Nat.count_monotone p hk)
    rw [Nat.nth_count hp] at hcount
    omega
  refine ⟨⟨fun n => f (x.state (Nat.nth p n)), fun n => _, fun n => ?_⟩, Nat.nth p, hmono,
    (hnext 0).2, fun n => rfl, fun n => (hsucc n).symm, hlabel, fun m j hj => ?_, fun m => ?_⟩
  · rw [hsucc n]
    exact hstep (x.next _) (hlabel n)
  · exact ⟨Nat.count p m, Nat.nth_count (p := p) (Option.isSome_iff_exists.mpr ⟨j, hj⟩)⟩
  · exact ⟨Nat.count p m, (hnext m).1, (hnext m).2.symm⟩

variable {x : Execution step} {y : Execution step'} {time : ℕ → ℕ}

theorem Execution.Projects.weaklyFair (h : x.Projects f g y time) {enabled : τ → Prop} {acts : κ → Prop}
    (hfair : x.WeaklyFair (fun s => enabled (f s)) fun i => ∃ j, g i = some j ∧ acts j) :
    y.WeaklyFair enabled acts := by
  intro n hn
  obtain ⟨m, hm, j, hj, hacts⟩ := hfair (time n) fun m hm => by
    obtain ⟨k, hk, hstate⟩ := h.exists_state m
    rw [hstate]
    exact hn k (h.strictMono.le_iff_le.mp (hm.trans hk))
  obtain ⟨k, rfl⟩ := h.exists_time m j hj
  refine ⟨k, h.strictMono.le_iff_le.mp hm, ?_⟩
  have hlabel := (h.label k).symm.trans hj
  rw [Option.some.inj hlabel]
  exact hacts

theorem Execution.Projects.stronglyFair (h : x.Projects f g y time) {enabled : τ → Prop} {acts : κ → Prop}
    (hfair : x.StronglyFair (fun s => enabled (f s)) fun i => ∃ j, g i = some j ∧ acts j) :
    y.StronglyFair enabled acts := by
  intro hrec n
  obtain ⟨m, hm, j, hj, hacts⟩ := hfair (fun k => by
    obtain ⟨m, hm, henabled⟩ := hrec k
    refine ⟨time m, hm.trans (h.strictMono.le_apply), ?_⟩
    show enabled (f (x.state (time m)))
    rw [h.state m]
    exact henabled) (time n)
  obtain ⟨k, rfl⟩ := h.exists_time m j hj
  refine ⟨k, h.strictMono.le_iff_le.mp hm, ?_⟩
  have hlabel := (h.label k).symm.trans hj
  show acts (y.label k)
  rw [Option.some.inj hlabel]
  exact hacts

end Component

end Transition
