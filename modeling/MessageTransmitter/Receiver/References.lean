import MessageTransmitter.Receiver.BstPointers
import Mathlib.Order.Bounds.Basic

/-!
# References into the store

`at` returns a reference into a node.  A removal deletes one node, which is not always the node of
the removed key: with two children the node stays, takes the key of its in-order successor, and the
successor's node is deleted.
-/

open LinkedTree SortedAssoc Transition

namespace MessageTransmitter

def Node.hasTwoChildren : Node → Bool
  | .nullptr => false
  | .node _ _ left right => !left.isNull && !right.isNull

/-- What a read of the message through a reference into the node at `p` yields. -/
def NodePtr.value? (m : NodeMemory) (p : Ptr) : Option MessageFormat :=
  (m p).map fun c => c.data.2

/-- Removing `j` deletes the node that holds `k`. -/
def BstImpl.Releases (s : BstImpl) (j k : UInt64) : Prop :=
  if (s.mRoot.search j).hasTwoChildren = true then IsLeast {q | s.contains q = true ∧ j < q} k
  else k = j

namespace NodeLayout

variable {t : NodeLayout} {p q : Ptr} {e f : UInt64 × MessageFormat} {l r : NodeLayout}

theorem ordered_cell : (toNode (.cell p e l r)).Ordered ↔ (toNode l).Ordered ∧ (toNode r).Ordered ∧
    (∀ x ∈ l.cells, x.2.1 < e.1) ∧ ∀ x ∈ r.cells, e.1 < x.2.1 := by
  rw [toNode, Node.ordered_node, entries_toNode, entries_toNode]
  simp only [List.forall_mem_map]

/-- An ordered tree finds every cell under its key. -/
theorem search_root_of_mem (hord : (toNode t).Ordered) (hmem : (p, e) ∈ t.cells) :
    (search t e.1).root = p := by
  induction t with
  | nil => cases hmem
  | cell q f l r ihl ihr =>
    obtain ⟨hl, hr, hleft, hright⟩ := ordered_cell.mp hord
    rw [search]
    rw [Layout.cells, List.mem_append, List.mem_cons] at hmem
    rcases hmem with hmem | heq | hmem
    · have hlt : e.1 < f.1 := hleft _ hmem
      rw [if_neg (ne_of_gt hlt), if_neg (lt_asymm hlt)]
      exact ihl hl hmem
    · obtain ⟨rfl, rfl⟩ := Prod.mk.inj heq
      rw [if_pos rfl, Layout.root_cell]
    · have hgt : f.1 < e.1 := hright _ hmem
      rw [if_neg (ne_of_lt hgt), if_pos hgt]
      exact ihr hr hmem

theorem mem_of_search {key : UInt64} (hs : search t key = .cell p e l r) :
    (p, e) ∈ t.cells ∧ e.1 = key := by
  induction t with
  | nil => cases hs
  | cell q f ll lr ihl ihr =>
    rw [search] at hs
    rw [Layout.cells, List.mem_append, List.mem_cons]
    split at hs
    · rename_i heq
      cases hs
      exact ⟨.inr (.inl rfl), heq⟩
    · split at hs
      · obtain ⟨hmem, hkey⟩ := ihr hs
        exact ⟨.inr (.inr hmem), hkey⟩
      · obtain ⟨hmem, hkey⟩ := ihl hs
        exact ⟨.inl hmem, hkey⟩

theorem cells_insert_of_mem {x : Ptr × UInt64 × MessageFormat} (hx : x ∈ t.cells) (temp : Ptr)
    (key : UInt64) (msg : MessageFormat) : x ∈ (insert t temp key msg).cells := by
  induction t with
  | nil => cases hx
  | cell q f l r ihl ihr =>
    rw [Layout.cells, List.mem_append, List.mem_cons] at hx
    rw [insert]
    split
    · rw [Layout.cells, List.mem_append, List.mem_cons]
      exact hx.imp_left ihl
    · split
      · rw [Layout.cells, List.mem_append, List.mem_cons]
        exact hx.imp_right fun h => h.imp_right ihr
      · rw [Layout.cells, List.mem_append, List.mem_cons]
        exact hx

/-- Deleting the first key of a tree deletes its first cell. -/
theorem cells_deleteNode_head (hord : (toNode t).Ordered) {es : List (Ptr × UInt64 × MessageFormat)}
    (he : t.cells = (q, f) :: es) : (deleteNode t f.1).cells = es := by
  induction t generalizing es with
  | nil => cases he
  | cell p e l r ihl _ =>
    obtain ⟨hl, -, hleft, -⟩ := ordered_cell.mp hord
    rw [deleteNode]
    cases hcells : l.cells with
    | nil =>
      rw [Layout.cells, hcells, List.nil_append] at he
      obtain ⟨hhead, rfl⟩ := List.cons.inj he
      obtain ⟨-, rfl⟩ := Prod.mk.inj hhead
      have hnil : l.isNil = true := by
        cases l with
        | nil => rfl
        | cell => simp [Layout.cells] at hcells
      rw [if_neg (lt_irrefl _), if_neg (lt_irrefl _), if_pos hnil]
    | cons x xs =>
      rw [Layout.cells, hcells, List.cons_append] at he
      obtain ⟨rfl, rfl⟩ := List.cons.inj he
      have hlt : f.1 < e.1 := hleft (q, f) (hcells ▸ List.mem_cons_self)
      rw [if_pos hlt, Layout.cells, ihl hl hcells]

/-- A deletion changes the tree at the node of the key only. -/
theorem cells_deleteNode_found {key : UInt64} (hs : search t key = .cell p e l r) :
    ∃ A B, t.cells = A ++ ((Layout.cell p e l r).cells ++ B) ∧
      (deleteNode t key).cells = A ++ ((deleteNode (.cell p e l r) key).cells ++ B) := by
  induction t with
  | nil => cases hs
  | cell q f ll lr ihl ihr =>
    rw [search] at hs
    by_cases hlt : key < f.1
    · rw [if_neg (ne_of_gt hlt), if_neg (lt_asymm hlt)] at hs
      obtain ⟨A, B, hcells, hdel⟩ := ihl hs
      refine ⟨A, B ++ (q, f) :: lr.cells, ?_, ?_⟩
      · rw [Layout.cells, hcells, List.append_assoc, List.append_assoc]
      · rw [deleteNode, if_pos hlt, Layout.cells, hdel, List.append_assoc, List.append_assoc]
    · by_cases hgt : key > f.1
      · rw [if_neg (ne_of_lt hgt), if_pos hgt] at hs
        obtain ⟨A, B, hcells, hdel⟩ := ihr hs
        refine ⟨ll.cells ++ (q, f) :: A, B, ?_, ?_⟩
        · rw [Layout.cells, hcells, List.append_assoc, List.cons_append]
        · rw [deleteNode, if_neg hlt, if_pos hgt, Layout.cells, hdel, List.append_assoc,
            List.cons_append]
      · rw [if_pos (le_antisymm (le_of_not_gt hlt) (le_of_not_gt hgt))] at hs
        exact ⟨[], [], by rw [hs, List.nil_append, List.append_nil],
          by rw [hs, List.nil_append, List.append_nil]⟩

/-- With at most one child the node itself is deleted. -/
theorem cells_deleteNode_of_child (hchild : l.isNil = true ∨ r.isNil = true) :
    (deleteNode (.cell p e l r) e.1).cells = l.cells ++ r.cells := by
  rw [deleteNode, if_neg (lt_irrefl _), if_neg (lt_irrefl _)]
  cases hnil : l.isNil with
  | true => rw [if_pos rfl, Layout.eq_nil_of_isNil hnil, Layout.cells, List.nil_append]
  | false =>
    have hnilr := hchild.resolve_left (by rw [hnil]; exact Bool.false_ne_true)
    rw [if_neg Bool.false_ne_true, if_pos hnilr, Layout.eq_nil_of_isNil hnilr, Layout.cells,
      List.append_nil]

/-- With two children the node takes the next key, whose node is deleted. -/
theorem cells_deleteNode_of_children (hord : (toNode r).Ordered) (hl : l.isNil = false)
    (hr : r.isNil = false) :
    ∃ q f es, r.cells = (q, f) :: es ∧
      (deleteNode (.cell p e l r) e.1).cells = l.cells ++ (p, f.1, e.2) :: es := by
  obtain ⟨q, f, r', es, hmin, hcells⟩ := exists_minValueNode hr
  refine ⟨q, f, es, hcells, ?_⟩
  rw [deleteNode, if_neg (lt_irrefl _), if_neg (lt_irrefl _), hl, hr, if_neg Bool.false_ne_true,
    if_neg Bool.false_ne_true, hmin, Layout.cells, cells_deleteNode_head hord hcells]

theorem ordered_search (hord : (toNode t).Ordered) (key : UInt64) :
    (toNode (search t key)).Ordered := by
  induction t with
  | nil => exact hord
  | cell p e l r ihl ihr =>
    obtain ⟨hl, hr, -, -⟩ := ordered_cell.mp hord
    rw [search]
    split
    · exact hord
    · split
      · exact ihr hr
      · exact ihl hl

end NodeLayout

namespace PtrBst

namespace Holds

variable {s s' : PtrBst} {t : NodeLayout} {spec : BstImpl} {fuel : ℕ} {p : Ptr} {j k : UInt64}
  {v : MessageFormat}

theorem ordered (h : Holds s t spec) (hvalid : spec.Valid) : (NodeLayout.toNode t).Ordered :=
  h.tree ▸ hvalid.ordered

theorem contains_iff_mem (h : Holds s t spec) (hvalid : spec.Valid) :
    spec.contains k = true ↔ ∃ q w, (q, k, w) ∈ t.cells := by
  rw [hvalid.contains_iff, mem_keys, BstImpl.contents, ← h.tree, NodeLayout.entries_toNode]
  simp only [List.mem_map, Prod.exists, exists_eq_right]
  exact exists_comm

/-- Two cells under one address, or with one key, are the same. -/
theorem cell_unique (h : Holds s t spec) (hvalid : spec.Valid) {q : Ptr} {w : MessageFormat}
    (hp : (p, k, v) ∈ t.cells) (hq : (q, j, w) ∈ t.cells) : p = q ↔ k = j := by
  apply Iff.intro
  · rintro rfl
    have hdata := h.owns.stores.data hp
    rw [h.owns.stores.data hq] at hdata
    exact (congrArg Prod.fst (Option.some.inj hdata)).symm
  · rintro rfl
    have hrootp : (NodeLayout.search t k).root = p :=
      NodeLayout.search_root_of_mem (h.ordered hvalid) hp
    have hrootq : (NodeLayout.search t k).root = q :=
      NodeLayout.search_root_of_mem (h.ordered hvalid) hq
    rw [← hrootp, hrootq]

theorem value?_eq (h : Holds s t spec) (hmem : (p, k, v) ∈ t.cells) :
    NodePtr.value? s.memory p = some v := by
  rw [NodePtr.value?, ← Function.comp_def Prod.snd Cell.data, ← Option.map_map,
    h.owns.stores.data hmem]
  rfl

theorem atNode_iff (h : Holds s t spec) (hvalid : spec.Valid) (hfuel : t.height < fuel) :
    s.atNode fuel k = .ok p ↔ ∃ v, (p, k, v) ∈ t.cells := by
  cases hc : spec.contains k with
  | false =>
    rw [PtrBst.atNode, h.contains_eq hfuel, hc]
    refine iff_of_false (fun hok => by cases hok) ?_
    rintro ⟨v, hmem⟩
    rw [(h.contains_iff_mem hvalid).mpr ⟨p, v, hmem⟩] at hc
    cases hc
  | true =>
    obtain ⟨q, w, l, r, hsearch⟩ := h.exists_cell hc
    have hq : (q, k, w) ∈ t.cells := (NodeLayout.mem_of_search hsearch).1
    rw [h.atNode_eq hfuel hc, hsearch, Layout.root_cell]
    apply Iff.intro
    · intro hok
      obtain rfl := Except.ok.inj hok
      exact ⟨w, hq⟩
    · rintro ⟨v, hmem⟩
      rw [(h.cell_unique hvalid hmem hq).mpr rfl]

/-- In a tree the key behind `j` is the least one above it. -/
theorem isLeast_next (h : Holds s t spec) (hvalid : spec.Valid) {q q' : Ptr}
    {w f : MessageFormat} {A B : List (Ptr × UInt64 × MessageFormat)}
    (hcells : t.cells = A ++ (q', j, w) :: (q, k, f) :: B) :
    IsLeast {c | spec.contains c = true ∧ j < c} k := by
  have hsorted : Sorted (t.cells.map Prod.snd) := by
    rw [← NodeLayout.entries_toNode]
    exact h.ordered hvalid
  rw [hcells, List.map_append, List.map_cons, sorted_pivot] at hsorted
  obtain ⟨-, htail, hbelow, habove⟩ := hsorted
  have hk : (q, k, f) ∈ t.cells := by
    rw [hcells]
    simp
  refine ⟨⟨(h.contains_iff_mem hvalid).mpr ⟨q, f, hk⟩, ?_⟩, fun c hc => ?_⟩
  · exact habove (k, f) List.mem_cons_self
  · obtain ⟨hc, hjc⟩ := hc
    obtain ⟨a, x, hmem⟩ := (h.contains_iff_mem hvalid).mp hc
    rw [hcells, List.mem_append, List.mem_cons, List.mem_cons] at hmem
    rcases hmem with hmem | heq | heq | hmem
    · exact absurd (hbelow _ (List.mem_map_of_mem hmem)) (lt_asymm hjc)
    · cases heq
      exact absurd hjc (lt_irrefl _)
    · cases heq
      exact le_refl _
    · exact htail.head_le (mem_keys.mpr ⟨x, List.mem_cons_of_mem _ (List.mem_map_of_mem hmem)⟩)

/-- Where the node of `j` is the one that is deleted. -/
theorem reference_of_dropped (h : Holds s t spec) (hvalid : spec.Valid) {q : Ptr}
    {w : MessageFormat} {C D : List (Ptr × UInt64 × MessageFormat)}
    (hcells : t.cells = C ++ (q, j, w) :: D) (hdel : (NodeLayout.deleteNode t j).cells = C ++ D)
    (hmem : (p, k, v) ∈ t.cells) :
    k = j ∧ p ∉ (NodeLayout.deleteNode t j).ptrs ∨
      k ≠ j ∧ (p, k, v) ∈ (NodeLayout.deleteNode t j).cells := by
  have hqmem : (q, j, w) ∈ t.cells := by
    rw [hcells]
    simp
  by_cases hkj : k = j
  · obtain rfl := (h.cell_unique hvalid hmem hqmem).mpr hkj
    have hnodup := h.owns.nodup
    rw [Layout.ptrs, hcells, List.map_append, List.map_cons, List.nodup_middle, List.nodup_cons,
      ← List.map_append, ← hdel] at hnodup
    exact .inl ⟨hkj, hnodup.1⟩
  · rw [hcells, List.mem_append, List.mem_cons] at hmem
    refine .inr ⟨hkj, ?_⟩
    rw [hdel, List.mem_append]
    refine hmem.imp_right fun hin => hin.resolve_left fun heq => hkj ?_
    exact congrArg (fun x => x.2.1) heq

/-- Where the node of `j` takes the next key `n`, whose node is deleted. -/
theorem reference_of_taken (h : Holds s t spec) (hvalid : spec.Valid) {q q' : Ptr} {n : UInt64}
    {w x : MessageFormat} {C D : List (Ptr × UInt64 × MessageFormat)}
    (hcells : t.cells = C ++ (q, j, w) :: (q', n, x) :: D)
    (hdel : (NodeLayout.deleteNode t j).cells = C ++ (q, n, w) :: D)
    (hmem : (p, k, v) ∈ t.cells) :
    k = n ∧ p ∉ (NodeLayout.deleteNode t j).ptrs ∨
      k ≠ n ∧ (p, if j = k then n else k, v) ∈ (NodeLayout.deleteNode t j).cells := by
  have hqmem : (q, j, w) ∈ t.cells := by
    rw [hcells]
    simp
  have hqmem' : (q', n, x) ∈ t.cells := by
    rw [hcells]
    simp
  by_cases hkn : k = n
  · obtain rfl := (h.cell_unique hvalid hmem hqmem').mpr hkn
    have hnodup := h.owns.nodup
    rw [Layout.ptrs, hcells, List.map_append, List.map_cons, List.map_cons, List.append_cons,
      List.nodup_middle, List.nodup_cons, List.append_assoc] at hnodup
    refine .inl ⟨hkn, ?_⟩
    rw [Layout.ptrs, hdel, List.map_append, List.map_cons]
    exact hnodup.1
  · refine .inr ⟨hkn, ?_⟩
    rw [hdel, List.mem_append, List.mem_cons]
    by_cases hkj : k = j
    · obtain rfl := (h.cell_unique hvalid hmem hqmem).mpr hkj
      have hdata := h.owns.stores.data hmem
      rw [h.owns.stores.data hqmem] at hdata
      have hvw : w = v := congrArg Prod.snd (Option.some.inj hdata)
      rw [if_pos hkj.symm, hvw]
      exact .inr (.inl rfl)
    · rw [hcells, List.mem_append, List.mem_cons, List.mem_cons] at hmem
      rw [if_neg (Ne.symm hkj)]
      rcases hmem with hin | heq | heq | hin
      · exact .inl hin
      · exact absurd (congrArg (fun x => x.2.1) heq) hkj
      · exact absurd (congrArg (fun x => x.2.1) heq) hkn
      · exact .inr (.inr hin)

/-- What a removal does to a cell: it goes with its key, it goes in place of the removed key's node,
or it stays, under another key only if its own is the removed one. -/
theorem reference_cases (h : Holds s t spec) (hvalid : spec.Valid) (hmem : (p, k, v) ∈ t.cells)
    (j : UInt64) :
    spec.Releases j k ∧ p ∉ (NodeLayout.deleteNode t j).ptrs ∨
      ¬ spec.Releases j k ∧ ∃ n, (p, n, v) ∈ (NodeLayout.deleteNode t j).cells ∧
        (j ≠ k → n = k) ∧ (j = k → IsLeast {c | spec.contains c = true ∧ j < c} n) := by
  have hnode : spec.mRoot.search j = NodeLayout.toNode (NodeLayout.search t j) := by
    rw [← h.tree, NodeLayout.toNode_search]
  cases hc : spec.contains j with
  | false =>
    have hnil : (NodeLayout.search t j).isNil = true := by
      have hlayout := h.contains_layout j
      rw [hc, eq_comm, Bool.not_eq_false'] at hlayout
      exact hlayout
    have hne : j ≠ k := by
      rintro rfl
      rw [(h.contains_iff_mem hvalid).mpr ⟨p, v, hmem⟩] at hc
      cases hc
    right
    rw [BstImpl.Releases, hnode, Layout.eq_nil_of_isNil hnil, NodeLayout.deleteNode_of_not_found hnil]
    exact ⟨hne.symm, k, hmem, fun _ => rfl, fun heq => absurd heq hne⟩
  | true =>
    obtain ⟨q, w, l, r, hsearch⟩ := h.exists_cell hc
    have hchildren : (spec.mRoot.search j).hasTwoChildren = (!l.isNil && !r.isNil) := by
      rw [hnode, hsearch, NodeLayout.toNode, Node.hasTwoChildren, NodeLayout.toNode_isNull,
        NodeLayout.toNode_isNull]
    obtain ⟨A, B, hcells, hdel⟩ := NodeLayout.cells_deleteNode_found hsearch
    rw [BstImpl.Releases, hchildren]
    by_cases hchild : l.isNil = true ∨ r.isNil = true
    · have hone : ¬ (!l.isNil && !r.isNil) = true := by
        rcases hchild with hnil | hnil
        · simp [hnil]
        · simp [hnil]
      rw [if_neg hone]
      rw [Layout.cells, List.append_assoc, List.cons_append, ← List.append_assoc] at hcells
      rw [NodeLayout.cells_deleteNode_of_child (e := (j, w)) hchild, List.append_assoc,
        ← List.append_assoc] at hdel
      refine (h.reference_of_dropped hvalid hcells hdel hmem).imp_right fun hkept => ?_
      exact ⟨hkept.1, k, hkept.2, fun _ => rfl, fun heq => absurd heq.symm hkept.1⟩
    · rw [not_or, Bool.not_eq_true, Bool.not_eq_true] at hchild
      obtain ⟨hl, hr⟩ := hchild
      have hordr : (NodeLayout.toNode r).Ordered := by
        have hord := NodeLayout.ordered_search (h.ordered hvalid) j
        rw [hsearch] at hord
        exact (NodeLayout.ordered_cell.mp hord).2.1
      obtain ⟨q', f, es, hr', hroot⟩ :=
        NodeLayout.cells_deleteNode_of_children (p := q) (e := (j, w)) hordr hl hr
      rw [Layout.cells, hr', List.append_assoc, List.cons_append, List.cons_append,
        ← List.append_assoc] at hcells
      rw [hroot, List.append_assoc, List.cons_append, ← List.append_assoc] at hdel
      have hleast := h.isLeast_next hvalid hcells
      have hiff : IsLeast {c | spec.contains c = true ∧ j < c} k ↔ k = f.1 :=
        ⟨fun hk => hk.unique hleast, fun heq => heq ▸ hleast⟩
      rw [if_pos (by rw [hl, hr]; rfl), hiff]
      refine (h.reference_of_taken hvalid hcells hdel hmem).imp_right fun hkept => ⟨hkept.1, _,
        hkept.2, fun hne => if_neg hne, fun heq => ?_⟩
      rw [if_pos heq]
      exact hleast

end Holds

/-- A reference from `at(k)` dangles after `remove(j)` exactly if the removal deletes the node of
`k`.  Otherwise it still reads the same message, which `at` now finds under `k` or, if `k` itself was
removed, under the next key. -/
theorem reference_after_remove {fuel : ℕ} {is : List PtrCall} {s s' : PtrBst}
    (hrun : Runs fuel {} is s) (hfuel : is.length < fuel) {j k : UInt64} {p : Ptr}
    (hp : s.atNode fuel k = .ok p) (hremove : s.remove fuel j = .ok s') :
    let spec := BstImpl.run (is.map Prod.fst)
    (s'.memory p = none ↔ spec.Releases j k) ∧
      (¬ spec.Releases j k →
        NodePtr.value? s'.memory p = NodePtr.value? s.memory p ∧
          ∃ n, s'.atNode fuel n = .ok p ∧ (j ≠ k → n = k) ∧
            (j = k → IsLeast {c | spec.contains c = true ∧ j < c} n)) := by
  intro spec
  obtain ⟨t, ht, hheight⟩ := represents_run hrun (Nat.le_of_lt hfuel)
  have hvalid : spec.Valid := BstImpl.valid_run (is.map Prod.fst)
  have hdeep : t.height < fuel := by omega
  obtain ⟨v, hmem⟩ := (ht.atNode_iff hvalid hdeep).mp hp
  obtain ⟨u, hu, hrep, hrew⟩ := ht.remove hdeep j
  rw [hremove] at hu
  obtain rfl := Except.ok.inj hu
  rcases ht.reference_cases hvalid hmem j with ⟨hrel, hgone⟩ | ⟨hrel, n, hkept, hsame, hnext⟩
  · refine ⟨iff_of_true (hrew.released p (List.mem_map_of_mem hmem) hgone) hrel, ?_⟩
    exact fun hnot => absurd hrel hnot
  · refine ⟨iff_of_false (hrep.owns.stores.ne_none (List.mem_map_of_mem hkept)) hrel, fun _ => ⟨?_, n,
      ?_, hsame, hnext⟩⟩
    · rw [ht.value?_eq hmem, hrep.value?_eq hkept]
    · have hless := NodeLayout.height_deleteNode_le t j
      exact (hrep.atNode_iff (hvalid.remove j) (by omega)).mpr ⟨v, hkept⟩

/-- A call that is no removal of `k`, and none that deletes its node, leaves the cell of `k`. -/
theorem Holds.mem_apply {s : PtrBst} {t : NodeLayout} {spec : BstImpl} (h : Holds s t spec)
    (hvalid : spec.Valid) {p : Ptr} {k : UInt64} {v : MessageFormat} (hmem : (p, k, v) ∈ t.cells)
    (i : PtrCall) (hkeeps : ∀ j, i.1 = .remove j → j ≠ k ∧ ¬ spec.Releases j k) :
    (p, k, v) ∈ (t.apply i).cells := by
  obtain ⟨c, temp⟩ := i
  cases c with
  | add msg => exact NodeLayout.cells_insert_of_mem hmem temp msg.messageId msg
  | insert msgId msg => exact NodeLayout.cells_insert_of_mem hmem temp msgId msg
  | remove j =>
    obtain ⟨hne, hnot⟩ := hkeeps j rfl
    rcases h.reference_cases hvalid hmem j with ⟨hrel, -⟩ | ⟨-, n, hkept, hsame, -⟩
    · exact absurd hrel hnot
    · rw [hsame hne] at hkept
      exact hkept

/-- Five messages, of which the one at the root is removed: its successor's node, at address 16, goes
instead of its own. -/
theorem reference_after_remove_root :
    let is : List PtrCall := [(.insert 5 {}, 11), (.insert 2 {}, 12), (.insert 8 {}, 13),
      (.insert 9 {}, 14), (.insert 6 ⟨0, 0, 6, 1⟩, 16)]
    ∃ s s', Runs 9 {} is s ∧ s.atNode 9 6 = .ok 16 ∧ s.remove 9 5 = .ok s' ∧
      s'.memory 16 = none ∧ (BstImpl.run (is.map Prod.fst)).Releases 5 6 := by
  intro is
  obtain ⟨s, hrun, hs⟩ := exists_runs 9 is (f := fun s => (s.atNode 9 6,
    (s.remove 9 5).map fun s' => s'.memory 16)) (b := (.ok 16, .ok none)) (by decide +kernel)
  obtain ⟨hat, hrem⟩ := Prod.mk.inj hs
  cases hremove : s.remove 9 5 with
  | error e => rw [hremove] at hrem; cases hrem
  | ok s' =>
    rw [hremove] at hrem
    have hgone : s'.memory 16 = none := Except.ok.inj hrem
    have h := reference_after_remove hrun (by decide) hat hremove
    exact ⟨s, s', hrun, hat, hremove, hgone, h.1.mp hgone⟩

/-- Calls other than a removal never touch a reference, and a removal leaves one as it is unless it
removes its key or deletes its node: so it lasts over any run of such calls. -/
theorem reference_kept {fuel : ℕ} {is js : List PtrCall} {s s' : PtrBst} (hrun : Runs fuel {} is s)
    (hmore : Runs fuel s js s') (hfuel : is.length + js.length < fuel) {k : UInt64} {p : Ptr}
    (hp : s.atNode fuel k = .ok p)
    (hkeeps : ∀ pre j temp, pre ++ [(.remove j, temp)] <+: js →
      j ≠ k ∧ ¬ (BstImpl.run ((is ++ pre).map Prod.fst)).Releases j k) :
    s'.atNode fuel k = .ok p ∧
      NodePtr.value? s'.memory p = NodePtr.value? s.memory p := by
  obtain ⟨t, ht, hheight⟩ := represents_run hrun (by omega)
  obtain ⟨v, hmem⟩ := (ht.atNode_iff (BstImpl.valid_run _) (by omega)).mp hp
  -- the cell stays where it is through every prefix of the calls
  have hkept : ∀ {pre : List PtrCall} {u : PtrBst}, Runs fuel s pre u → pre <+: js →
      ∃ t', Represents u t' (BstImpl.run ((is ++ pre).map Prod.fst)) ∧ (p, k, v) ∈ t'.cells ∧
        t'.height ≤ is.length + pre.length := by
    intro pre u hpre
    induction hpre with
    | nil => exact fun _ => ⟨t, by rw [List.append_nil]; exact ht, hmem, hheight⟩
    | @snoc pre u w i _ hlast ih =>
      intro hprefix
      obtain ⟨t', ht', hin, hheight'⟩ := ih ((List.prefix_append _ _).trans hprefix)
      have hlen := hprefix.length_le
      rw [List.length_append, List.length_singleton] at hlen ⊢
      have hdeep : t'.height < fuel := by omega
      obtain ⟨w', hw', hrep, -⟩ := ht'.step hdeep hlast.1
      rw [hlast.2] at hw'
      obtain rfl := Except.ok.inj hw'
      rw [← List.append_assoc, List.map_append, List.map_singleton, BstImpl.run_snoc]
      refine ⟨_, hrep, ht'.mem_apply (BstImpl.valid_run _) hin i fun j hj => ?_,
        (t'.height_apply_le i).trans (Nat.succ_le_succ hheight')⟩
      exact hkeeps pre j i.2 (by rw [← hj]; exact hprefix)
  obtain ⟨t', ht', hin, hheight'⟩ := hkept hmore (List.prefix_refl js)
  exact ⟨(ht'.atNode_iff (BstImpl.valid_run _) (by omega)).mpr ⟨v, hin⟩,
    (ht'.value?_eq hin).trans (ht.value?_eq hmem).symm⟩

/-- The node of 2 outlives the removal of the root, which has two children, and a new insertion that
gets the deleted node's address. -/
theorem reference_kept_beside_root :
    let is : List PtrCall := [(.insert 5 {}, 11), (.insert 2 ⟨0, 0, 2, 1⟩, 12), (.insert 8 {}, 13)]
    let js : List PtrCall := [(.remove 5, 14), (.insert 7 {}, 13)]
    ∃ s s', Runs 9 {} is s ∧ Runs 9 s js s' ∧ s.atNode 9 2 = .ok 12 ∧ s'.atNode 9 2 = .ok 12 ∧
      NodePtr.value? s'.memory 12 = NodePtr.value? s.memory 12 := by
  intro is js
  obtain ⟨s, hrun, hat⟩ := exists_runs 9 is (f := fun s => s.atNode 9 2) (b := .ok 12)
    (by decide +kernel)
  obtain ⟨s', hboth, -⟩ := exists_runs 9 (is ++ js) (f := fun s => s.mRoot) (b := 11)
    (by decide +kernel)
  obtain ⟨u, hu, hmore⟩ := run_append_iff.mp hboth
  obtain rfl := runs_deterministic hrun hu
  have h := reference_kept hrun hmore (by decide) hat fun pre j temp hpre => by
    rcases pre with _ | ⟨a, _ | ⟨b, pre⟩⟩
    · -- the removal of 5, whose successor is not 2
      have hj : j = 5 ∧ temp = 14 := by simpa [js] using hpre
      obtain ⟨rfl, rfl⟩ := hj
      refine ⟨by decide, fun hrel => ?_⟩
      rw [BstImpl.Releases, if_pos (by decide)] at hrel
      exact absurd hrel.1.2 (by decide)
    · simp [js] at hpre
    · simp [js] at hpre
  exact ⟨s, s', hrun, hmore, hat, h⟩

end PtrBst

end MessageTransmitter
