import Mathlib.Data.List.Sort
import Mathlib.Data.Finset.Max
import Mathlib.Data.Finset.Card

/-!
# Sorted association lists

The in-order contents of a search tree: a list of key/value pairs whose keys strictly increase.
Two search trees of different shapes hold the same mapping exactly when these lists agree
(`Sorted.ext`), so the lists are the canonical view through which trees are compared.

Lookups are `List.lookup`.  Insertion keeps the value that is already stored under a key.
-/

namespace SortedAssoc

variable {κ α : Type*} [LinearOrder κ]

def Sorted (es : List (κ × α)) : Prop := es.Pairwise fun a b => a.1 < b.1

def keys (es : List (κ × α)) : Finset κ := (es.map Prod.fst).toFinset

/-- Ordered insertion; an entry already stored under the key is kept as it is. -/
def insertNew (k : κ) (v : α) : List (κ × α) → List (κ × α)
  | [] => [(k, v)]
  | (k', v') :: es =>
      if k < k' then (k, v) :: (k', v') :: es
      else if k' < k then (k', v') :: insertNew k v es
      else (k', v') :: es

def erase (k : κ) (es : List (κ × α)) : List (κ × α) := es.filter fun e => e.1 ≠ k

/-! ## Sortedness -/

@[simp] theorem sorted_nil : Sorted ([] : List (κ × α)) := List.Pairwise.nil

theorem sorted_cons {k : κ} {v : α} {es : List (κ × α)} :
    Sorted ((k, v) :: es) ↔ (∀ e ∈ es, k < e.1) ∧ Sorted es := List.pairwise_cons

theorem sorted_pivot {l r : List (κ × α)} {k : κ} {v : α} :
    Sorted (l ++ (k, v) :: r) ↔
      Sorted l ∧ Sorted r ∧ (∀ e ∈ l, e.1 < k) ∧ (∀ e ∈ r, k < e.1) := by
  unfold Sorted
  rw [List.pairwise_append, List.pairwise_cons]
  apply Iff.intro
  · rintro ⟨hl, ⟨hk, hr⟩, hlr⟩
    exact ⟨hl, hr, fun e he => hlr e he _ List.mem_cons_self, hk⟩
  · rintro ⟨hl, hr, hlk, hkr⟩
    refine ⟨hl, ⟨hkr, hr⟩, fun a ha b hb => ?_⟩
    rcases List.mem_cons.mp hb with rfl | hb
    · exact hlk a ha
    · exact (hlk a ha).trans (hkr b hb)

theorem Sorted.nodup_keys {es : List (κ × α)} (h : Sorted es) : (es.map Prod.fst).Nodup := by
  rw [List.Nodup, List.pairwise_map]
  exact h.imp fun hab => ne_of_lt hab

theorem Sorted.card_keys {es : List (κ × α)} (h : Sorted es) : (keys es).card = es.length := by
  rw [keys, List.toFinset_card_of_nodup h.nodup_keys, List.length_map]

theorem Sorted.erase {es : List (κ × α)} (h : Sorted es) (k : κ) :
    Sorted (SortedAssoc.erase k es) := List.Pairwise.filter _ h

/-! ## Membership and lookups -/

@[simp] theorem mem_keys {es : List (κ × α)} {k : κ} : k ∈ keys es ↔ ∃ v, (k, v) ∈ es := by
  simp [keys]

theorem keys_eq_empty_iff {es : List (κ × α)} : keys es = ∅ ↔ es = [] := by
  simp [keys]

theorem mem_of_lookup {es : List (κ × α)} {k : κ} {v : α} (h : es.lookup k = some v) :
    (k, v) ∈ es := by
  obtain ⟨l, r, rfl, -⟩ := List.lookup_eq_some_iff.mp h
  simp

theorem lookup_eq_none {es : List (κ × α)} {k : κ} : es.lookup k = none ↔ k ∉ keys es := by
  simp only [List.lookup_eq_none_iff, mem_keys, bne_iff_ne, Prod.forall]
  grind

theorem lookup_isSome {es : List (κ × α)} {k : κ} : (es.lookup k).isSome ↔ k ∈ keys es := by
  rw [← not_iff_not, ← lookup_eq_none, Bool.not_eq_true, Option.isSome_eq_false_iff,
    Option.isNone_iff_eq_none]

theorem Sorted.lookup_eq_some {es : List (κ × α)} (h : Sorted es) {k : κ} {v : α} :
    es.lookup k = some v ↔ (k, v) ∈ es := by
  refine ⟨mem_of_lookup, fun hmem => ?_⟩
  obtain ⟨l, r, rfl⟩ := List.mem_iff_append.mp hmem
  obtain ⟨-, -, hl, -⟩ := sorted_pivot.mp h
  exact List.lookup_eq_some_iff.mpr ⟨l, r, rfl, fun p hp => by
    simpa only [bne_iff_ne] using (ne_of_lt (hl p hp)).symm⟩

/-- Looking a key up in a sorted list only consults the side of the pivot it falls on. -/
theorem Sorted.lookup_pivot {l r : List (κ × α)} {k : κ} {v : α} (h : Sorted (l ++ (k, v) :: r))
    (q : κ) : (l ++ (k, v) :: r).lookup q =
      if q < k then l.lookup q else if k < q then r.lookup q else some v := by
  obtain ⟨-, -, hl, hr⟩ := sorted_pivot.mp h
  -- a key at or beyond the pivot is not found on the near side
  have hleft : k ≤ q → l.lookup q = none := fun hkq =>
    List.lookup_eq_none_iff.mpr fun p hp => by
      simpa only [bne_iff_ne] using (ne_of_lt ((hl p hp).trans_le hkq)).symm
  have hright : q < k → r.lookup q = none := fun hqk =>
    List.lookup_eq_none_iff.mpr fun p hp => by
      simpa only [bne_iff_ne] using ne_of_lt (hqk.trans (hr p hp))
  rw [List.lookup_append, List.lookup_cons]
  by_cases hlt : q < k
  · rw [if_pos hlt, beq_eq_false_iff_ne.mpr (ne_of_lt hlt)]
    simp only [hright hlt, Option.or_none]
  · rw [if_neg hlt, hleft (le_of_not_gt hlt), Option.none_or]
    by_cases hgt : k < q
    · rw [if_pos hgt, beq_eq_false_iff_ne.mpr (ne_of_gt hgt)]
    · rw [if_neg hgt, beq_iff_eq.mpr (le_antisymm (le_of_not_gt hgt) (le_of_not_gt hlt))]

/-- A sorted list is determined by what its keys look up. -/
theorem Sorted.ext {es fs : List (κ × α)} (he : Sorted es) (hf : Sorted fs)
    (h : ∀ k, es.lookup k = fs.lookup k) : es = fs := by
  -- sorted permutations of each other are equal
  have hmem : ∀ e : κ × α, e ∈ es ↔ e ∈ fs := fun ⟨k, v⟩ => by
    rw [← he.lookup_eq_some, ← hf.lookup_eq_some, h]
  have hperm : es.Perm fs := (List.perm_ext_iff_of_nodup
    (List.Nodup.of_map _ he.nodup_keys) (List.Nodup.of_map _ hf.nodup_keys)).mpr hmem
  exact hperm.eq_of_pairwise (fun a b _ _ hab hba => absurd hab (lt_asymm hba)) he hf

theorem Sorted.head_le {k : κ} {v : α} {es : List (κ × α)} (h : Sorted ((k, v) :: es)) {q : κ}
    (hq : q ∈ keys ((k, v) :: es)) : k ≤ q := by
  obtain ⟨w, hw⟩ := mem_keys.mp hq
  rcases List.mem_cons.mp hw with heq | hmem
  · exact (congrArg Prod.fst heq).ge
  · exact ((sorted_cons.mp h).1 _ hmem).le

/-! ## Insertion -/

theorem mem_insertNew {k : κ} {v : α} {es : List (κ × α)} {e : κ × α}
    (h : e ∈ insertNew k v es) : e = (k, v) ∨ e ∈ es := by
  induction es with
  | nil => exact Or.inl (List.mem_singleton.mp h)
  | cons c es ih =>
    simp only [insertNew] at h
    split at h
    · exact List.mem_cons.mp h
    · split at h
      · rcases List.mem_cons.mp h with rfl | htail
        · exact Or.inr List.mem_cons_self
        · exact (ih htail).imp id (List.mem_cons_of_mem _)
      · exact Or.inr h

theorem mem_insertNew_of_mem {k : κ} {v : α} {es : List (κ × α)} {e : κ × α} (h : e ∈ es) :
    e ∈ insertNew k v es := by
  induction es with
  | nil => cases h
  | cons f es ih =>
    simp only [insertNew]
    split
    · exact List.mem_cons_of_mem _ h
    · split
      · rcases List.mem_cons.mp h with rfl | h
        · exact List.mem_cons_self
        · exact List.mem_cons_of_mem _ (ih h)
      · exact h

theorem Sorted.insertNew {es : List (κ × α)} (h : Sorted es) (k : κ) (v : α) :
    Sorted (SortedAssoc.insertNew k v es) := by
  induction es with
  | nil => exact List.pairwise_singleton _ _
  | cons c es ih =>
    obtain ⟨hc, hes⟩ := sorted_cons.mp h
    simp only [SortedAssoc.insertNew]
    split
    · rename_i hlt
      refine sorted_cons.mpr ⟨fun e he => ?_, h⟩
      rcases List.mem_cons.mp he with rfl | he
      · exact hlt
      · exact hlt.trans (hc e he)
    · split
      · rename_i hgt
        refine sorted_cons.mpr ⟨fun e he => ?_, ih hes⟩
        rcases mem_insertNew he with rfl | he
        · exact hgt
        · exact hc e he
      · exact h

theorem insertNew_left {l r : List (κ × α)} {k c : κ} {v w : α} (hkc : k < c) :
    insertNew k v (l ++ (c, w) :: r) = insertNew k v l ++ (c, w) :: r := by
  induction l with
  | nil => simp only [List.nil_append, insertNew, if_pos hkc, List.cons_append]
  | cons e l ih =>
    simp only [List.cons_append, insertNew, ih]
    split_ifs <;> rfl

theorem insertNew_right {l r : List (κ × α)} {k : κ} {v : α} (hl : ∀ e ∈ l, e.1 < k) :
    insertNew k v (l ++ r) = l ++ insertNew k v r := by
  induction l with
  | nil => rfl
  | cons e l ih =>
    have he : e.1 < k := hl e List.mem_cons_self
    simp only [List.cons_append, insertNew, if_neg (lt_asymm he), if_pos he]
    rw [ih fun f hf => hl f (List.mem_cons_of_mem _ hf)]

theorem insertNew_pivot {l r : List (κ × α)} {k : κ} {v w : α} (hl : ∀ e ∈ l, e.1 < k) :
    insertNew k v (l ++ (k, w) :: r) = l ++ (k, w) :: r := by
  rw [insertNew_right hl]
  simp only [insertNew, lt_irrefl, if_false]

theorem perm_insertNew {es : List (κ × α)} {k : κ} (h : k ∉ keys es) (v : α) :
    (insertNew k v es).Perm ((k, v) :: es) := by
  induction es with
  | nil => exact List.Perm.refl _
  | cons c es ih =>
    have hne : c.1 ≠ k := fun heq => h (mem_keys.mpr ⟨c.2, heq ▸ List.mem_cons_self⟩)
    have htail : k ∉ keys es := fun hk => by
      obtain ⟨w, hw⟩ := mem_keys.mp hk
      exact h (mem_keys.mpr ⟨w, List.mem_cons_of_mem _ hw⟩)
    simp only [insertNew]
    split
    · exact List.Perm.refl _
    · split
      · exact ((ih htail).cons c).trans (List.Perm.swap _ _ _)
      · rename_i hlt hgt
        exact absurd (le_antisymm (le_of_not_gt hlt) (le_of_not_gt hgt)) hne

/-- Insertion under a new key puts the entry between the smaller and the greater keys. -/
theorem Sorted.insertNew_split {es : List (κ × α)} (h : Sorted es) {k : κ} (hk : k ∉ keys es)
    (v : α) : ∃ l r, es = l ++ r ∧ SortedAssoc.insertNew k v es = l ++ (k, v) :: r ∧
      (∀ e ∈ l, e.1 < k) ∧ ∀ e ∈ r, k < e.1 := by
  have hmem : (k, v) ∈ SortedAssoc.insertNew k v es :=
    (perm_insertNew hk v).mem_iff.mpr List.mem_cons_self
  obtain ⟨l, r, heq⟩ := List.mem_iff_append.mp hmem
  obtain ⟨hl, hr, hlt, hgt⟩ := sorted_pivot.mp (heq ▸ h.insertNew k v)
  refine ⟨l, r, ?_, heq, hlt, hgt⟩
  -- without the entry, the sorted result is the old list again
  have hsorted : Sorted (l ++ r) :=
    List.Pairwise.sublist (List.Sublist.append_left (List.sublist_cons_self _ _) l)
      (heq ▸ h.insertNew k v)
  have hperm : es.Perm (l ++ r) := List.Perm.cons_inv
    ((perm_insertNew hk v).symm.trans (heq ▸ List.perm_middle))
  exact hperm.eq_of_pairwise (fun a b _ _ hab hba => absurd hab (lt_asymm hba)) h hsorted

theorem Sorted.insertNew_of_mem {es : List (κ × α)} (h : Sorted es) {k : κ} (hk : k ∈ keys es)
    (v : α) : SortedAssoc.insertNew k v es = es := by
  obtain ⟨w, hw⟩ := mem_keys.mp hk
  obtain ⟨l, r, rfl⟩ := List.mem_iff_append.mp hw
  exact insertNew_pivot (sorted_pivot.mp h).2.2.1

theorem Sorted.lookup_insertNew {es : List (κ × α)} (h : Sorted es) (k : κ) (v : α) (q : κ) :
    (SortedAssoc.insertNew k v es).lookup q =
      if q = k then some ((es.lookup k).getD v) else es.lookup q := by
  by_cases hk : k ∈ keys es
  · rw [h.insertNew_of_mem hk]
    obtain ⟨w, hw⟩ := Option.isSome_iff_exists.mp (lookup_isSome.mpr hk)
    split
    · rename_i hq; rw [hq, hw, Option.getD_some]
    · rfl
  · -- with a new key the list is the old one with the entry in front, up to order
    have hlookup : ∀ w, (SortedAssoc.insertNew k v es).lookup q = some w ↔
        ((k, v) :: es).lookup q = some w := fun w => by
      rw [(h.insertNew k v).lookup_eq_some, (perm_insertNew hk v).mem_iff, List.lookup_cons]
      by_cases hq : q = k
      · subst hq
        have hnot : (q, w) ∉ es := fun hw => hk (mem_keys.mpr ⟨w, hw⟩)
        simp [hnot, eq_comm]
      · rw [beq_eq_false_iff_ne.mpr hq]
        simp [hq, h.lookup_eq_some]
    rw [Option.ext hlookup, List.lookup_cons]
    by_cases hq : q = k
    · rw [if_pos hq, beq_iff_eq.mpr hq, lookup_eq_none.mpr hk, Option.getD_none]
    · rw [if_neg hq, beq_eq_false_iff_ne.mpr hq]

theorem Sorted.keys_insertNew {es : List (κ × α)} (h : Sorted es) (k : κ) (v : α) :
    keys (SortedAssoc.insertNew k v es) = keys es ∪ {k} := by
  ext q
  rw [← lookup_isSome, h.lookup_insertNew, Finset.mem_union, Finset.mem_singleton, ← lookup_isSome]
  split <;> simp_all

/-! ## Erasure -/

theorem mem_erase {es : List (κ × α)} {k : κ} {e : κ × α} :
    e ∈ erase k es ↔ e ∈ es ∧ e.1 ≠ k := by
  simp [erase]

theorem keys_erase (es : List (κ × α)) (k : κ) : keys (erase k es) = keys es \ {k} := by
  ext q
  simp only [mem_keys, mem_erase, Finset.mem_sdiff, Finset.mem_singleton, exists_and_right]

theorem erase_of_notMem {es : List (κ × α)} {k : κ} (h : k ∉ keys es) : erase k es = es := by
  rw [erase, List.filter_eq_self]
  intro e he
  simpa using fun heq : e.1 = k => h (mem_keys.mpr ⟨e.2, heq ▸ he⟩)

theorem erase_left {l r : List (κ × α)} {k : κ} (hr : ∀ e ∈ r, k < e.1) :
    erase k (l ++ r) = erase k l ++ r := by
  rw [erase, List.filter_append]
  congr 1
  rw [List.filter_eq_self]
  exact fun e he => decide_eq_true (ne_of_gt (hr e he))

theorem erase_right {l r : List (κ × α)} {k : κ} (hl : ∀ e ∈ l, e.1 < k) :
    erase k (l ++ r) = l ++ erase k r := by
  rw [erase, List.filter_append]
  congr 1
  rw [List.filter_eq_self]
  exact fun e he => decide_eq_true (ne_of_lt (hl e he))

@[simp] theorem erase_cons_self {es : List (κ × α)} {k : κ} {v : α} :
    erase k ((k, v) :: es) = erase k es := by
  simp [erase]

theorem erase_cons_of_ne {es : List (κ × α)} {k c : κ} {v : α} (h : c ≠ k) :
    erase k ((c, v) :: es) = (c, v) :: erase k es := by
  simp [erase, h]

theorem Sorted.erase_head {k : κ} {v : α} {es : List (κ × α)} (h : Sorted ((k, v) :: es)) :
    SortedAssoc.erase k ((k, v) :: es) = es := by
  rw [erase_cons_self]
  exact erase_left (l := []) (sorted_cons.mp h).1

theorem Sorted.lookup_erase {es : List (κ × α)} (h : Sorted es) (k q : κ) :
    (SortedAssoc.erase k es).lookup q = if q = k then none else es.lookup q := by
  apply Option.ext
  intro v
  rw [(h.erase k).lookup_eq_some, mem_erase]
  by_cases hq : q = k
  · simp [hq]
  · simp [hq, h.lookup_eq_some]

end SortedAssoc
