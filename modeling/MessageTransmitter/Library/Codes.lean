import Mathlib.Data.List.Basic
import Mathlib.Logic.Function.Basic

/-!
# Self-delimiting codes

A code writes values as words.  It is self-delimiting when the end of a code word shows without a
look at what follows.  Such codes stay self-delimiting when their words are put one after the other,
and a sequence of words can be read back.  A number in decimal is not self-delimiting, but it becomes
so with a separator behind it that does not start with a digit.
-/

namespace Codes

variable {α β σ : Type*}

/-- Two texts that start with a code word have the same one in front, and the same rest. -/
def SelfDelimiting (enc : α → List σ) : Prop :=
  ∀ ⦃a b : α⦄ ⦃x y : List σ⦄, enc a ++ x = enc b ++ y → a = b ∧ x = y

theorem append_cons_inj {p : σ → Prop} {s : σ} (hs : ¬ p s) {l m x y : List σ}
    (hl : ∀ c ∈ l, p c) (hm : ∀ c ∈ m, p c) (h : l ++ s :: x = m ++ s :: y) : l = m ∧ x = y := by
  induction l generalizing m with
  | nil =>
    cases m with
    | nil => exact ⟨rfl, (List.cons.inj h).2⟩
    | cons d m => exact absurd ((List.cons.inj h).1 ▸ hm d List.mem_cons_self) hs
  | cons c l ih =>
    cases m with
    | nil => exact absurd ((List.cons.inj h).1 ▸ hl c List.mem_cons_self) hs
    | cons d m =>
      obtain ⟨rfl, htail⟩ := List.cons.inj h
      obtain ⟨rfl, hrest⟩ := ih (fun e he => hl e (List.mem_cons_of_mem _ he))
        (fun e he => hm e (List.mem_cons_of_mem _ he)) htail
      exact ⟨rfl, hrest⟩

/-- Words of letters that satisfy `p`, each closed by a separator that starts with another letter. -/
theorem selfDelimiting_of_separator {enc : α → List σ} (hinj : Function.Injective enc)
    {p : σ → Prop} (hletters : ∀ a, ∀ c ∈ enc a, p c) {s : σ} (hs : ¬ p s) (w : List σ) :
    SelfDelimiting fun a => enc a ++ s :: w := by
  intro a b x y h
  simp only [List.append_assoc, List.cons_append] at h
  obtain ⟨hword, hrest⟩ := append_cons_inj hs (hletters a) (hletters b) h
  exact ⟨hinj hword, List.append_cancel_left hrest⟩

namespace SelfDelimiting

variable {enc : α → List σ} {enc' : β → List σ}

theorem prepend (h : SelfDelimiting enc) (w : List σ) : SelfDelimiting fun a => w ++ enc a := by
  intro a b x y heq
  simp only [List.append_assoc] at heq
  exact h (List.append_cancel_left heq)

theorem append (h : SelfDelimiting enc) (h' : SelfDelimiting enc') :
    SelfDelimiting fun p : α × β => enc p.1 ++ enc' p.2 := by
  rintro ⟨a, b⟩ ⟨c, d⟩ x y heq
  simp only [List.append_assoc] at heq
  obtain ⟨hfirst, hrest⟩ := h heq
  obtain ⟨hsecond, htail⟩ := h' hrest
  exact ⟨Prod.ext hfirst hsecond, htail⟩

theorem comp (h : SelfDelimiting enc) {f : β → α} (hf : Function.Injective f) :
    SelfDelimiting fun b => enc (f b) := by
  intro a b x y heq
  obtain ⟨hab, hrest⟩ := h heq
  exact ⟨hf hab, hrest⟩

/-- A sequence of code words, none of them empty, is determined by its text. -/
theorem flatMap_injective (h : SelfDelimiting enc) (hne : ∀ a, enc a ≠ []) :
    Function.Injective fun as : List α => as.flatMap enc := by
  intro as
  induction as with
  | nil =>
    intro bs heq
    cases bs with
    | nil => rfl
    | cons b bs => exact absurd (List.append_eq_nil_iff.mp heq.symm).1 (hne b)
  | cons a as ih =>
    intro bs heq
    cases bs with
    | nil => exact absurd (List.append_eq_nil_iff.mp heq).1 (hne a)
    | cons b bs =>
      obtain ⟨rfl, hrest⟩ := h heq
      rw [ih hrest]

/-- A code word may go on with letters that depend on its value. -/
theorem followed (h : SelfDelimiting enc) (w : α → List σ) :
    SelfDelimiting fun a => enc a ++ w a := by
  intro a b x y heq
  simp only [List.append_assoc] at heq
  obtain ⟨rfl, hrest⟩ := h heq
  exact ⟨rfl, List.append_cancel_left hrest⟩

theorem const (w : List σ) : SelfDelimiting fun _ : Unit => w :=
  fun _ _ _ _ heq => ⟨rfl, List.append_cancel_left heq⟩

/-- Two codes that are told apart by their first letter. -/
theorem sumElim (h : SelfDelimiting enc) (h' : SelfDelimiting enc') {p : σ → Prop}
    (hp : ∀ a, ∃ c w, enc a = c :: w ∧ p c) (hp' : ∀ b, ∃ c w, enc' b = c :: w ∧ ¬ p c) :
    SelfDelimiting (Sum.elim enc enc') := by
  have hapart : ∀ a b x y, enc a ++ x ≠ enc' b ++ y := fun a b x y heq => by
    obtain ⟨c, w, hw, hc⟩ := hp a
    obtain ⟨d, w', hw', hd⟩ := hp' b
    rw [hw, hw'] at heq
    exact hd ((List.cons.inj heq).1 ▸ hc)
  rintro (a | a) (b | b) x y heq
  · obtain ⟨rfl, hrest⟩ := h heq
    exact ⟨rfl, hrest⟩
  · exact absurd heq (hapart a b x y)
  · exact absurd heq.symm (hapart b a y x)
  · obtain ⟨rfl, hrest⟩ := h' heq
    exact ⟨rfl, hrest⟩

end SelfDelimiting

/-! ## Decimal numbers -/

theorem toDigits_injective : Function.Injective (Nat.toDigits 10) :=
  Function.LeftInverse.injective fun _ => Nat.ofDigitChars_ten_toDigits

/-- A decimal number with a separator that does not start with a digit. -/
theorem selfDelimiting_decimal {s : Char} (hs : s.isDigit = false) (w : List Char) :
    SelfDelimiting fun n : ℕ => Nat.toDigits 10 n ++ s :: w := by
  have hdigits : ∀ n : ℕ, ∀ c ∈ Nat.toDigits 10 n, c.isDigit = true := fun _ _ hc =>
    Nat.isDigit_of_mem_toDigits (by decide) (by decide) hc
  exact selfDelimiting_of_separator toDigits_injective hdigits (Bool.eq_false_iff.mp hs) w

/-- The letters of a decimal number with a sign. -/
def SignedDigit (c : Char) : Prop := c.isDigit = true ∨ c = '-'

instance instDecidableSignedDigit (c : Char) : Decidable (SignedDigit c) :=
  inferInstanceAs (Decidable (c.isDigit = true ∨ c = '-'))

theorem toList_repr_int (n : Int) : n.repr.toList =
    if n < 0 then '-' :: Nat.toDigits 10 n.natAbs else Nat.toDigits 10 n.natAbs := by
  cases n with
  | ofNat n => simp [Int.repr]
  | negSucc n => simp [Int.repr]

theorem exists_repr_int (n : Int) : ∃ c w, n.repr.toList = c :: w ∧ SignedDigit c := by
  rw [toList_repr_int]
  split
  · exact ⟨'-', _, rfl, .inr rfl⟩
  · cases hdigits : Nat.toDigits 10 n.natAbs with
    | nil => exact absurd hdigits Nat.toDigits_ne_nil
    | cons c w =>
      exact ⟨c, w, rfl, .inl (Nat.isDigit_of_mem_toDigits (by decide) (by decide)
        (hdigits ▸ List.mem_cons_self))⟩

/-- A decimal number with a sign and with a separator that is neither a digit nor a sign. -/
theorem selfDelimiting_signed {s : Char} (hs : ¬ SignedDigit s) (w : List Char) :
    SelfDelimiting fun n : Int => n.repr.toList ++ s :: w := by
  have hletters : ∀ n : Int, ∀ c ∈ n.repr.toList, SignedDigit c := fun n c hc => by
    have hdigits : ∀ c ∈ Nat.toDigits 10 n.natAbs, SignedDigit c := fun c hc =>
      .inl (Nat.isDigit_of_mem_toDigits (by decide) (by decide) hc)
    rw [toList_repr_int] at hc
    split at hc
    · rcases List.mem_cons.mp hc with rfl | hc
      · exact .inr rfl
      · exact hdigits c hc
    · exact hdigits c hc
  have hinj : Function.Injective fun n : Int => n.repr.toList := fun m n h => by
    have habs : Nat.toDigits 10 m.natAbs = Nat.toDigits 10 n.natAbs → m.natAbs = n.natAbs :=
      fun hdigits => toDigits_injective hdigits
    simp only [toList_repr_int] at h
    split at h
    · split at h
      · have heq := habs (List.cons.inj h).2
        omega
      · -- a sign against a digit
        have hc := Nat.isDigit_of_mem_toDigits (b := 10) (by decide) (by decide)
          (h ▸ List.mem_cons_self)
        cases hc
    · split at h
      · have hc := Nat.isDigit_of_mem_toDigits (b := 10) (by decide) (by decide)
          (h.symm ▸ List.mem_cons_self)
        cases hc
      · have heq := habs h
        omega
  exact selfDelimiting_of_separator hinj hletters hs w

end Codes
