import Mathlib.Data.List.Nodup
import Mathlib.Data.Finset.Card
import Mathlib.Logic.Function.Basic

/-!
# Binary trees in memory

A memory holds the cells in use under their addresses; address 0 is null.  A `Layout` says which tree
lies where: `Owns m t` that the cells of `t` are where `t` puts them, all at addresses of their own.
`Rewrites` is what an operation on a subtree does to the memory, and its rules (`trans`, `left`,
`right`, …) put the operation on a whole tree together from its steps.
-/

namespace LinkedTree

abbrev Ptr := ℕ

def null : Ptr := 0

/-- The ways a pointer program fails; `thrown` is an exception of its own. -/
inductive Fault (ε : Type*) where
  | nullDereference
  | dangling
  | doubleFree
  | outOfFuel
  | thrown (e : ε)
  deriving DecidableEq, Repr

structure Cell (α : Type*) where
  data : α
  left : Ptr
  right : Ptr
  deriving DecidableEq, Repr

/-- `none` is an address that is not in use: never handed out, or released. -/
abbrev Memory (α : Type*) := Ptr → Option (Cell α)

variable {α ε : Type*}

@[simp] theorem ok_bind.{u, v} {ε : Type v} {α β : Type u} (a : α) (f : α → Except ε β) :
    (Except.ok a >>= f) = f a := rfl

namespace Memory

def read (m : Memory α) (p : Ptr) : Except (Fault ε) (Cell α) :=
  if p = null then .error .nullDereference
  else match m p with
    | some c => .ok c
    | none => .error .dangling

def set (m : Memory α) (p : Ptr) (c : Cell α) : Memory α := Function.update m p (some c)

def setData (m : Memory α) (p : Ptr) (d : α) : Except (Fault ε) (Memory α) :=
  (m.read p).map fun c => m.set p { c with data := d }

def setLeft (m : Memory α) (p q : Ptr) : Except (Fault ε) (Memory α) :=
  (m.read p).map fun c => m.set p { c with left := q }

def setRight (m : Memory α) (p q : Ptr) : Except (Fault ε) (Memory α) :=
  (m.read p).map fun c => m.set p { c with right := q }

def release (m : Memory α) (p : Ptr) : Memory α := Function.update m p none

/-- Deleting null does nothing. -/
def delete (m : Memory α) (p : Ptr) : Except (Fault ε) (Memory α) :=
  if p = null then .ok m
  else match m p with
    | some _ => .ok (m.release p)
    | none => .error .doubleFree

/-- What is known of the address that an allocator offers: it is not null and not in use. -/
def Fresh (m : Memory α) (p : Ptr) : Prop := p ≠ null ∧ m p = none

instance instDecidableFresh (m : Memory α) (p : Ptr) : Decidable (m.Fresh p) :=
  decidable_of_iff (p ≠ null ∧ (m p).isNone = true) (by rw [Fresh, Option.isNone_iff_eq_none])

variable {m : Memory α} {p q : Ptr} {c : Cell α}

@[simp] theorem set_self : m.set p c p = some c := by
  rw [set, Function.update_self]

theorem set_of_ne (h : q ≠ p) : m.set p c q = m q := by
  rw [set, Function.update_of_ne h]

@[simp] theorem release_self : m.release p p = none := by
  rw [release, Function.update_self]

theorem release_of_ne (h : q ≠ p) : m.release p q = m q := by
  rw [release, Function.update_of_ne h]

theorem read_eq (hp : p ≠ null) (h : m p = some c) :
    m.read p = (.ok c : Except (Fault ε) (Cell α)) := by
  rw [read, if_neg hp, h]

theorem setData_eq (hp : p ≠ null) (h : m p = some c) (d : α) :
    m.setData p d = (.ok (m.set p { c with data := d }) : Except (Fault ε) (Memory α)) := by
  rw [setData, read_eq hp h, Except.map]

theorem setLeft_eq (hp : p ≠ null) (h : m p = some c) (q : Ptr) :
    m.setLeft p q = (.ok (m.set p { c with left := q }) : Except (Fault ε) (Memory α)) := by
  rw [setLeft, read_eq hp h, Except.map]

theorem setRight_eq (hp : p ≠ null) (h : m p = some c) (q : Ptr) :
    m.setRight p q = (.ok (m.set p { c with right := q }) : Except (Fault ε) (Memory α)) := by
  rw [setRight, read_eq hp h, Except.map]

theorem delete_eq (hp : p ≠ null) (h : m p = some c) :
    m.delete p = (.ok (m.release p) : Except (Fault ε) (Memory α)) := by
  rw [delete, if_neg hp, h]

/-- The cells that the cell at `p` leads to, itself included. -/
inductive Reaches (m : Memory α) : Ptr → Ptr → Prop
  | here {p : Ptr} {c : Cell α} : m p = some c → Reaches m p p
  | left {p q : Ptr} {c : Cell α} : m p = some c → Reaches m c.left q → Reaches m p q
  | right {p q : Ptr} {c : Cell α} : m p = some c → Reaches m c.right q → Reaches m p q

end Memory

/-! ## Trees with addresses -/

/-- A tree with the address each of its cells lies at. -/
inductive Layout (α : Type*) where
  | nil
  | cell (p : Ptr) (data : α) (left right : Layout α)

namespace Layout

def root : Layout α → Ptr
  | nil => null
  | cell p _ _ _ => p

/-- The addresses with their data, in order. -/
def cells : Layout α → List (Ptr × α)
  | nil => []
  | cell p d l r => l.cells ++ (p, d) :: r.cells

def ptrs (t : Layout α) : List Ptr := t.cells.map Prod.fst

def isNil : Layout α → Bool
  | nil => true
  | cell _ _ _ _ => false

def height : Layout α → ℕ
  | nil => 0
  | cell _ _ l r => max l.height r.height + 1

@[simp] theorem root_nil : (nil : Layout α).root = null := rfl

@[simp] theorem root_cell (p : Ptr) (d : α) (l r : Layout α) : (cell p d l r).root = p := rfl

@[simp] theorem ptrs_nil : (nil : Layout α).ptrs = [] := rfl

@[simp] theorem ptrs_cell (p : Ptr) (d : α) (l r : Layout α) :
    (cell p d l r).ptrs = l.ptrs ++ p :: r.ptrs := by
  simp [ptrs, cells]

theorem eq_nil_of_isNil {t : Layout α} (h : t.isNil = true) : t = nil := by
  cases t with
  | nil => rfl
  | cell => cases h

theorem mem_ptrs_cell {p q : Ptr} {d : α} {l r : Layout α} :
    q ∈ (cell p d l r).ptrs ↔ q ∈ l.ptrs ∨ q = p ∨ q ∈ r.ptrs := by
  rw [ptrs_cell, List.mem_append, List.mem_cons]

theorem exists_of_height_lt {t : Layout α} {fuel : ℕ} (h : t.height < fuel) : ∃ n, fuel = n + 1 :=
  Nat.exists_eq_succ_of_ne_zero (by omega)

theorem exists_of_height_cell_lt {p : Ptr} {d : α} {l r : Layout α} {fuel : ℕ}
    (h : (cell p d l r).height < fuel) : ∃ n, fuel = n + 1 ∧ l.height < n ∧ r.height < n := by
  obtain ⟨n, rfl⟩ := exists_of_height_lt h
  rw [height] at h
  exact ⟨n, rfl, by omega, by omega⟩

end Layout

open Layout

def Stores (m : Memory α) : Layout α → Prop
  | nil => True
  | cell p d l r => m p = some ⟨d, l.root, r.root⟩ ∧ Stores m l ∧ Stores m r

theorem Stores.frame {m m' : Memory α} {t : Layout α} (h : Stores m t)
    (hframe : ∀ q ∈ t.ptrs, m' q = m q) : Stores m' t := by
  induction t with
  | nil => trivial
  | cell p d l r ihl ihr =>
    obtain ⟨hp, hl, hr⟩ := h
    refine ⟨?_, ihl hl fun q hq => ?_, ihr hr fun q hq => ?_⟩
    · rw [hframe p (mem_ptrs_cell.mpr (.inr (.inl rfl))), hp]
    · exact hframe q (mem_ptrs_cell.mpr (.inl hq))
    · exact hframe q (mem_ptrs_cell.mpr (.inr (.inr hq)))

theorem Stores.ne_none {m : Memory α} {t : Layout α} (h : Stores m t) {q : Ptr} (hq : q ∈ t.ptrs) :
    m q ≠ none := by
  induction t with
  | nil => cases hq
  | cell p d l r ihl ihr =>
    obtain ⟨hp, hl, hr⟩ := h
    rcases mem_ptrs_cell.mp hq with hq | rfl | hq
    · exact ihl hl hq
    · rw [hp]
      exact Option.some_ne_none _
    · exact ihr hr hq

/-- The cell under an address of the tree holds the tree's data. -/
theorem Stores.data {m : Memory α} {t : Layout α} (h : Stores m t) {q : Ptr} {d : α}
    (hq : (q, d) ∈ t.cells) : (m q).map Cell.data = some d := by
  induction t with
  | nil => cases hq
  | cell p e l r ihl ihr =>
    obtain ⟨hp, hl, hr⟩ := h
    rw [cells, List.mem_append, List.mem_cons] at hq
    rcases hq with hq | heq | hq
    · exact ihl hl hq
    · obtain ⟨rfl, rfl⟩ := Prod.mk.inj heq
      rw [hp]
      rfl
    · exact ihr hr hq

theorem Stores.reaches {m : Memory α} {t : Layout α} (h : Stores m t) {q : Ptr} (hq : q ∈ t.ptrs) :
    m.Reaches t.root q := by
  induction t with
  | nil => cases hq
  | cell p d l r ihl ihr =>
    obtain ⟨hp, hl, hr⟩ := h
    rcases mem_ptrs_cell.mp hq with hq | rfl | hq
    · exact .left hp (ihl hl hq)
    · exact .here hp
    · exact .right hp (ihr hr hq)

/-- The tree lies in the memory, every cell at an address of its own. -/
structure Owns (m : Memory α) (t : Layout α) : Prop where
  stores : Stores m t
  nodup : t.ptrs.Nodup
  nonnull : null ∉ t.ptrs

theorem owns_nil (m : Memory α) : Owns m nil := ⟨trivial, List.nodup_nil, List.not_mem_nil⟩

section Cell

variable {m : Memory α} {p : Ptr} {d : α} {l r : Layout α}

theorem owns_cell : Owns m (cell p d l r) ↔
    p ≠ null ∧ m p = some ⟨d, l.root, r.root⟩ ∧ Owns m l ∧ Owns m r ∧ p ∉ l.ptrs ∧ p ∉ r.ptrs ∧
      ∀ q ∈ l.ptrs, q ∉ r.ptrs := by
  apply Iff.intro
  · rintro ⟨⟨hp, hl, hr⟩, hnodup, hnull⟩
    rw [ptrs_cell, List.nodup_append, List.nodup_cons] at hnodup
    obtain ⟨hnl, ⟨hpr, hnr⟩, hdisj⟩ := hnodup
    rw [mem_ptrs_cell, not_or, not_or] at hnull
    refine ⟨Ne.symm hnull.2.1, hp, ⟨hl, hnl, hnull.1⟩, ⟨hr, hnr, hnull.2.2⟩, fun hpl => ?_, hpr,
      fun q hq hqr => ?_⟩
    · exact hdisj p hpl p List.mem_cons_self rfl
    · exact hdisj q hq q (List.mem_cons_of_mem p hqr) rfl
  · rintro ⟨hpnull, hp, hl, hr, hpl, hpr, hdisj⟩
    refine ⟨⟨hp, hl.stores, hr.stores⟩, ?_, ?_⟩
    · rw [ptrs_cell, List.nodup_append, List.nodup_cons]
      refine ⟨hl.nodup, ⟨hpr, hr.nodup⟩, fun a ha b hb => ?_⟩
      rcases List.mem_cons.mp hb with rfl | hb
      · exact fun heq => hpl (heq ▸ ha)
      · exact fun heq => hdisj a ha (heq ▸ hb)
    · rw [mem_ptrs_cell, not_or, not_or]
      exact ⟨hl.nonnull, Ne.symm hpnull, hr.nonnull⟩

theorem Owns.root_eq_null {t : Layout α} (h : Owns m t) : t.root = null ↔ t.isNil = true := by
  cases t with
  | nil => exact iff_of_true rfl rfl
  | cell p d l r => exact iff_of_false (owns_cell.mp h).1 Bool.false_ne_true

end Cell

/-! ## Operations on a subtree -/

/-- The memory goes from `m` to `m'` by turning the subtree `t` into `t'`: new cells come from
unused memory, cells that leave the tree are released, and nothing else is touched. -/
structure Rewrites (m m' : Memory α) (t t' : Layout α) : Prop where
  owns : Owns m' t'
  fresh : ∀ q ∈ t'.ptrs, q ∉ t.ptrs → m q = none
  released : ∀ q ∈ t.ptrs, q ∉ t'.ptrs → m' q = none
  frame : ∀ q, q ∉ t.ptrs → q ∉ t'.ptrs → m' q = m q

namespace Rewrites

variable {m m' m'' : Memory α} {t t' t'' l l' r r' : Layout α} {p : Ptr} {d : α}

theorem refl (h : Owns m t) : Rewrites m m t t :=
  ⟨h, fun _ hq hnot => absurd hq hnot, fun _ hq hnot => absurd hq hnot, fun _ _ _ => rfl⟩

theorem trans (h : Rewrites m m' t t') (h' : Rewrites m' m'' t' t'') : Rewrites m m'' t t'' := by
  refine ⟨h'.owns, fun q hq hnot => ?_, fun q hq hnot => ?_, fun q hnot hnot'' => ?_⟩
  · by_cases hq' : q ∈ t'.ptrs
    · exact h.fresh q hq' hnot
    · rw [← h.frame q hnot hq']
      exact h'.fresh q hq hq'
  · by_cases hq' : q ∈ t'.ptrs
    · exact h'.released q hq' hnot
    · rw [h'.frame q hq' hnot]
      exact h.released q hq hq'
  · by_cases hq' : q ∈ t'.ptrs
    · -- a cell that was only there in between
      rw [h'.released q hq' hnot'', h.fresh q hq' hnot]
    · rw [h'.frame q hq' hnot'', h.frame q hnot hq']

theorem alloc (hfresh : m.Fresh p) (d : α) :
    Rewrites m (m.set p ⟨d, null, null⟩) nil (cell p d nil nil) := by
  have howns : Owns (m.set p ⟨d, null, null⟩) (cell p d nil nil) :=
    owns_cell.mpr ⟨hfresh.1, Memory.set_self, owns_nil _, owns_nil _, List.not_mem_nil,
      List.not_mem_nil, fun _ hq => absurd hq List.not_mem_nil⟩
  refine ⟨howns, fun q hq _ => ?_, fun q hq => absurd hq List.not_mem_nil, fun q _ hnot => ?_⟩
  · rw [mem_ptrs_cell] at hq
    rcases hq with hq | rfl | hq
    · cases hq
    · exact hfresh.2
    · cases hq
  · exact Memory.set_of_ne fun heq => hnot (mem_ptrs_cell.mpr (.inr (.inl heq)))

theorem setData (h : Owns m (cell p d l r)) (d' : α) :
    Rewrites m (m.set p ⟨d', l.root, r.root⟩) (cell p d l r) (cell p d' l r) := by
  obtain ⟨hpnull, hp, hl, hr, hpl, hpr, hdisj⟩ := owns_cell.mp h
  -- the root's cell lies outside its subtrees
  have hout : ∀ u : Layout α, p ∉ u.ptrs → Owns m u → Owns (m.set p ⟨d', l.root, r.root⟩) u :=
    fun u hpu hu => ⟨hu.stores.frame fun q hq => Memory.set_of_ne fun heq => hpu (heq ▸ hq),
      hu.nodup, hu.nonnull⟩
  have howns : Owns (m.set p ⟨d', l.root, r.root⟩) (cell p d' l r) :=
    owns_cell.mpr ⟨hpnull, Memory.set_self, hout l hpl hl, hout r hpr hr, hpl, hpr, hdisj⟩
  refine ⟨howns, fun q hq hnot => ?_, fun q hq hnot => ?_, fun q hnot _ => ?_⟩
  · exact absurd (mem_ptrs_cell.mpr (mem_ptrs_cell.mp hq)) hnot
  · exact absurd (mem_ptrs_cell.mpr (mem_ptrs_cell.mp hq)) hnot
  · exact Memory.set_of_ne fun heq => hnot (mem_ptrs_cell.mpr (.inr (.inl heq)))

/-- An operation leaves alone what hangs off another root: what it adds was not in use. -/
theorem apart {u : Layout α} (h : Rewrites m m' t t') (hu : Owns m u)
    (hdisj : ∀ q ∈ t.ptrs, q ∉ u.ptrs) : Owns m' u ∧ ∀ q ∈ t'.ptrs, q ∉ u.ptrs := by
  have hdisj' : ∀ q ∈ t'.ptrs, q ∉ u.ptrs := fun q hq hqu =>
    hu.stores.ne_none hqu (h.fresh q hq fun hqt => hdisj q hqt hqu)
  refine ⟨⟨?_, hu.nodup, hu.nonnull⟩, hdisj'⟩
  exact hu.stores.frame fun q hq => h.frame q (fun hqt => hdisj q hqt hq) fun hqt => hdisj' q hqt hq

/-- An operation on a subtree leaves the root's cell alone. -/
theorem root_frame {c : Cell α} (h : Rewrites m m' t t') (hp : m p = some c) (hpt : p ∉ t.ptrs) :
    p ∉ t'.ptrs ∧ m' p = some c := by
  have hpt' : p ∉ t'.ptrs := fun hmem => by
    have hnone := h.fresh p hmem hpt
    rw [hp] at hnone
    cases hnone
  exact ⟨hpt', (h.frame p hpt hpt').trans hp⟩

theorem left_frame (h : Owns m (cell p d l r)) (hl : Rewrites m m' l l') :
    p ∉ l'.ptrs ∧ m' p = some ⟨d, l.root, r.root⟩ ∧ Owns m' r ∧ ∀ q ∈ l'.ptrs, q ∉ r.ptrs := by
  obtain ⟨-, hp, -, hr, hpl, -, hdisj⟩ := owns_cell.mp h
  obtain ⟨hpl', hp'⟩ := hl.root_frame hp hpl
  exact ⟨hpl', hp', hl.apart hr hdisj⟩

theorem right_frame (h : Owns m (cell p d l r)) (hr : Rewrites m m' r r') :
    p ∉ r'.ptrs ∧ m' p = some ⟨d, l.root, r.root⟩ ∧ Owns m' l ∧ ∀ q ∈ l.ptrs, q ∉ r'.ptrs := by
  obtain ⟨-, hp, hl, -, -, hpr, hdisj⟩ := owns_cell.mp h
  obtain ⟨hpr', hp'⟩ := hr.root_frame hp hpr
  obtain ⟨hl', hdisj'⟩ := hr.apart hl fun q hqr hql => hdisj q hql hqr
  exact ⟨hpr', hp', hl', fun q hql hqr => hdisj' q hqr hql⟩

/-- The operation on the left subtree, followed by the write of its new root. -/
theorem left (h : Owns m (cell p d l r)) (hl : Rewrites m m' l l') :
    Rewrites m (m'.set p ⟨d, l'.root, r.root⟩) (cell p d l r) (cell p d l' r) := by
  obtain ⟨hpnull, -, -, -, hpl, hpr, hdisj⟩ := owns_cell.mp h
  obtain ⟨hpl', -, hr', hdisj'⟩ := left_frame h hl
  have hset : ∀ q, q ≠ p → (m'.set p ⟨d, l'.root, r.root⟩) q = m' q := fun q => Memory.set_of_ne
  have howns : Owns (m'.set p ⟨d, l'.root, r.root⟩) (cell p d l' r) := by
    refine owns_cell.mpr ⟨hpnull, Memory.set_self, ⟨?_, hl.owns.nodup, hl.owns.nonnull⟩,
      ⟨?_, hr'.nodup, hr'.nonnull⟩, hpl', hpr, hdisj'⟩
    · exact hl.owns.stores.frame fun q hq => hset q fun heq => hpl' (heq ▸ hq)
    · exact hr'.stores.frame fun q hq => hset q fun heq => hpr (heq ▸ hq)
  refine ⟨howns, fun q hq hnot => ?_, fun q hq hnot => ?_, fun q hnot hnot' => ?_⟩
  · rw [mem_ptrs_cell, not_or, not_or] at hnot
    rcases mem_ptrs_cell.mp hq with hql | heq | hqr
    · exact hl.fresh q hql hnot.1
    · exact absurd heq hnot.2.1
    · exact absurd hqr hnot.2.2
  · rw [mem_ptrs_cell, not_or, not_or] at hnot
    rw [hset q hnot.2.1]
    rcases mem_ptrs_cell.mp hq with hql | heq | hqr
    · exact hl.released q hql hnot.1
    · exact absurd heq hnot.2.1
    · exact absurd hqr hnot.2.2
  · rw [mem_ptrs_cell, not_or, not_or] at hnot hnot'
    rw [hset q hnot.2.1, hl.frame q hnot.1 hnot'.1]

theorem right (h : Owns m (cell p d l r)) (hr : Rewrites m m' r r') :
    Rewrites m (m'.set p ⟨d, l.root, r'.root⟩) (cell p d l r) (cell p d l r') := by
  obtain ⟨hpnull, -, -, -, hpl, hpr, hdisj⟩ := owns_cell.mp h
  obtain ⟨hpr', -, hl', hdisj'⟩ := right_frame h hr
  have hset : ∀ q, q ≠ p → (m'.set p ⟨d, l.root, r'.root⟩) q = m' q := fun q => Memory.set_of_ne
  have howns : Owns (m'.set p ⟨d, l.root, r'.root⟩) (cell p d l r') := by
    refine owns_cell.mpr ⟨hpnull, Memory.set_self, ⟨?_, hl'.nodup, hl'.nonnull⟩,
      ⟨?_, hr.owns.nodup, hr.owns.nonnull⟩, hpl, hpr', hdisj'⟩
    · exact hl'.stores.frame fun q hq => hset q fun heq => hpl (heq ▸ hq)
    · exact hr.owns.stores.frame fun q hq => hset q fun heq => hpr' (heq ▸ hq)
  refine ⟨howns, fun q hq hnot => ?_, fun q hq hnot => ?_, fun q hnot hnot' => ?_⟩
  · rw [mem_ptrs_cell, not_or, not_or] at hnot
    rcases mem_ptrs_cell.mp hq with hql | heq | hqr
    · exact absurd hql hnot.1
    · exact absurd heq hnot.2.1
    · exact hr.fresh q hqr hnot.2.2
  · rw [mem_ptrs_cell, not_or, not_or] at hnot
    rw [hset q hnot.2.1]
    rcases mem_ptrs_cell.mp hq with hql | heq | hqr
    · exact absurd hql hnot.1
    · exact absurd heq hnot.2.1
    · exact hr.released q hqr hnot.2.2
  · rw [mem_ptrs_cell, not_or, not_or] at hnot hnot'
    rw [hset q hnot.2.1, hr.frame q hnot.2.2 hnot'.2.2]

/-- Releasing a root that has at most one child leaves that child's tree. -/
theorem release_root (h : Owns m (cell p d l r)) (ht : t = l ∧ r = nil ∨ t = r ∧ l = nil) :
    Rewrites m (m.release p) (cell p d l r) t := by
  obtain ⟨hpnull, hp, hl, hr, hpl, hpr, -⟩ := owns_cell.mp h
  have hsub : Owns m t ∧ p ∉ t.ptrs ∧ ∀ q, q ∈ (cell p d l r).ptrs ↔ q = p ∨ q ∈ t.ptrs := by
    rcases ht with ⟨rfl, rfl⟩ | ⟨rfl, rfl⟩
    · exact ⟨hl, hpl, fun q => by rw [mem_ptrs_cell]; simp [or_comm]⟩
    · exact ⟨hr, hpr, fun q => by rw [mem_ptrs_cell]; simp⟩
  obtain ⟨ht, hpt, hmem⟩ := hsub
  have hne : ∀ q ∈ t.ptrs, q ≠ p := fun q hq heq => hpt (heq ▸ hq)
  refine ⟨⟨ht.stores.frame fun q hq => Memory.release_of_ne (hne q hq), ht.nodup, ht.nonnull⟩,
    fun q hq hnot => absurd ((hmem q).mpr (.inr hq)) hnot, fun q hq hnot => ?_, fun q hnot _ => ?_⟩
  · obtain rfl := ((hmem q).mp hq).resolve_right hnot
    exact Memory.release_self
  · exact Memory.release_of_ne fun heq => hnot ((hmem q).mpr (.inl heq))

/-- No operation leaks: a cell that is in use afterwards hangs off the root or is none of the
operation's. -/
theorem in_use (h : Rewrites m m' t t') {q : Ptr} (hq : m' q ≠ none) :
    q ∈ t'.ptrs ∨ q ∉ t.ptrs ∧ m q ≠ none := by
  by_cases hnot : q ∈ t'.ptrs
  · exact .inl hnot
  · by_cases hmem : q ∈ t.ptrs
    · exact absurd (h.released q hmem hnot) hq
    · rw [h.frame q hmem hnot] at hq
      exact .inr ⟨hmem, hq⟩

theorem noLeak (h : Rewrites m m' t t') (hall : ∀ q, m q ≠ none → q ∈ t.ptrs) :
    ∀ q, m' q ≠ none → q ∈ t'.ptrs := by
  intro q hq
  rcases h.in_use hq with hmem | ⟨hnot, hq⟩
  · exact hmem
  · exact absurd (hall q hq) hnot

end Rewrites

end LinkedTree
