import MessageTransmitter.Library.LinkedTree
import MessageTransmitter.Receiver.BstApi

/-!
# The search tree on pointers

`udp_receiver/bst_api.h` once more, this time with its pointers: nodes lie in a memory, `new` gets
the address `temp` from the allocator, and `delete` releases one.  A recursion or loop that is
deeper than `fuel` is cut off.

Each function does to the memory what its counterpart on `NodeLayout`, a tree with addresses, says; and
without the addresses these are the functions of `Node`.
-/

open LinkedTree SortedAssoc

namespace MessageTransmitter

/-- The nodes in use; the data of a node are its key and its value. -/
abbrev NodeMemory := Memory (UInt64 × MessageFormat)

/-- The code throws string literals. -/
abbrev PtrResult (β : Type) := Except (LinkedTree.Fault String) β

namespace NodePtr

def makeNode (m : NodeMemory) (temp : Ptr) (key : UInt64) (value : MessageFormat) : NodeMemory × Ptr :=
  (m.set temp ⟨(key, value), null, null⟩, temp)

def appendToString : ℕ → NodeMemory → Ptr → String → PtrResult String
  | 0, _, _, _ => .error .outOfFuel
  | fuel + 1, m, root, s =>
      if root = null then .ok s
      else do
        let node ← m.read root
        let s ← appendToString fuel m node.left s
        let s := s ++ "[" ++ ToString.toString node.data.1.toNat ++ "] = " ++
          node.data.2.toStringCompact ++ "\n"
        appendToString fuel m node.right s

def toString (fuel : ℕ) (m : NodeMemory) (node : Ptr) : PtrResult String :=
  appendToString fuel m node ""

def search : ℕ → NodeMemory → Ptr → UInt64 → PtrResult Ptr
  | 0, _, _, _ => .error .outOfFuel
  | fuel + 1, m, root, key =>
      if root = null then .ok root
      else do
        let node ← m.read root
        if node.data.1 = key then .ok root
        else if node.data.1 < key then search fuel m node.right key
        else search fuel m node.left key

def insert : ℕ → NodeMemory → Ptr → Ptr → UInt64 → MessageFormat → PtrResult (NodeMemory × Ptr)
  | 0, _, _, _, _, _ => .error .outOfFuel
  | fuel + 1, m, temp, node, key, msg =>
      if node = null then .ok (makeNode m temp key msg)
      else do
        let cell ← m.read node
        if key < cell.data.1 then do
          let r ← insert fuel m temp cell.left key msg
          let m ← r.1.setLeft node r.2
          .ok (m, node)
        else if key > cell.data.1 then do
          let r ← insert fuel m temp cell.right key msg
          let m ← r.1.setRight node r.2
          .ok (m, node)
        else .ok (m, node)

def minValueNode : ℕ → NodeMemory → Ptr → PtrResult Ptr
  | 0, _, _ => .error .outOfFuel
  | fuel + 1, m, current =>
      if current = null then .ok current
      else do
        let cell ← m.read current
        if cell.left ≠ null then minValueNode fuel m cell.left
        else .ok current

def deleteNode : ℕ → NodeMemory → Ptr → UInt64 → PtrResult (NodeMemory × Ptr)
  | 0, _, _, _ => .error .outOfFuel
  | fuel + 1, m, root, key =>
      if root = null then .ok (m, root)
      else do
        let cell ← m.read root
        if key < cell.data.1 then do
          let r ← deleteNode fuel m cell.left key
          let m ← r.1.setLeft root r.2
          .ok (m, root)
        else if key > cell.data.1 then do
          let r ← deleteNode fuel m cell.right key
          let m ← r.1.setRight root r.2
          .ok (m, root)
        else if cell.left = null then do
          let m ← m.delete root
          .ok (m, cell.right)
        else if cell.right = null then do
          let m ← m.delete root
          .ok (m, cell.left)
        else do
          let temp ← minValueNode fuel m cell.right
          let tempCell ← m.read temp
          -- `root->key = temp->key`: the value stays
          let m ← m.setData root (tempCell.data.1, cell.data.2)
          let rootCell ← m.read root
          let tempCell ← m.read temp
          let r ← deleteNode fuel m rootCell.right tempCell.data.1
          let m ← r.1.setRight root r.2
          .ok (m, root)

end NodePtr

/-! ## Trees with addresses -/

abbrev NodeLayout := Layout (UInt64 × MessageFormat)

namespace NodeLayout

def toNode : NodeLayout → Node
  | .nil => .nullptr
  | .cell _ e left right => .node e.1 e.2 (toNode left) (toNode right)

def search : NodeLayout → UInt64 → NodeLayout
  | .nil, _ => .nil
  | .cell p e left right, key =>
      if e.1 = key then .cell p e left right
      else if e.1 < key then search right key
      else search left key

def insert : NodeLayout → Ptr → UInt64 → MessageFormat → NodeLayout
  | .nil, temp, key, msg => .cell temp (key, msg) .nil .nil
  | .cell p e left right, temp, key, msg =>
      if key < e.1 then .cell p e (insert left temp key msg) right
      else if key > e.1 then .cell p e left (insert right temp key msg)
      else .cell p e left right

def minValueNode : NodeLayout → NodeLayout
  | .nil => .nil
  | .cell p e .nil right => .cell p e .nil right
  | .cell _ _ (.cell p e left right) _ => minValueNode (.cell p e left right)

def deleteNode : NodeLayout → UInt64 → NodeLayout
  | .nil, _ => .nil
  | .cell p e left right, key =>
      if key < e.1 then .cell p e (deleteNode left key) right
      else if key > e.1 then .cell p e left (deleteNode right key)
      else if left.isNil then right
      else if right.isNil then left
      else match minValueNode right with
        | .cell _ s _ _ => .cell p (s.1, e.2) left (deleteNode right s.1)
        | .nil => .cell p e left right

theorem toNode_isNull (t : NodeLayout) : (toNode t).isNull = t.isNil := by
  cases t <;> rfl

theorem toNode_search (t : NodeLayout) (key : UInt64) :
    toNode (search t key) = (toNode t).search key := by
  induction t with
  | nil => rfl
  | cell p e l r ihl ihr =>
    rw [search, toNode, Node.search]
    split
    · rfl
    · split
      · exact ihr
      · exact ihl

theorem toNode_insert (t : NodeLayout) (temp : Ptr) (key : UInt64) (msg : MessageFormat) :
    toNode (insert t temp key msg) = (toNode t).insert key msg := by
  induction t with
  | nil => rfl
  | cell p e l r ihl ihr =>
    rw [insert, toNode, Node.insert]
    split
    · rw [toNode, ihl]
    · split
      · rw [toNode, ihr]
      · rfl

theorem toNode_minValueNode (t : NodeLayout) :
    toNode (minValueNode t) = (toNode t).minValueNode := by
  induction t with
  | nil => rfl
  | cell p e l r ihl _ =>
    cases l with
    | nil => rfl
    | cell q f ll lr => exact ihl

/-- The leftmost node holds the first cell and has no left child. -/
theorem exists_minValueNode {t : NodeLayout} (h : t.isNil = false) :
    ∃ p e r es, minValueNode t = .cell p e .nil r ∧ t.cells = (p, e) :: es := by
  induction t with
  | nil => cases h
  | cell p e l r ihl _ =>
    cases l with
    | nil => exact ⟨p, e, r, r.cells, rfl, rfl⟩
    | cell q f ll lr =>
      obtain ⟨p', e', r', es, hmin, hcells⟩ := ihl rfl
      refine ⟨p', e', r', es ++ (p, e) :: r.cells, hmin, ?_⟩
      rw [Layout.cells, hcells, List.cons_append]

theorem stores_minValueNode {m : NodeMemory} {t : NodeLayout} (h : Stores m t) :
    Stores m (minValueNode t) := by
  induction t with
  | nil => exact h
  | cell p e l r ihl _ =>
    cases l with
    | nil => exact h
    | cell q f ll lr => exact ihl h.2.1

theorem toNode_deleteNode (t : NodeLayout) (key : UInt64) :
    toNode (deleteNode t key) = (toNode t).deleteNode key := by
  induction t generalizing key with
  | nil => rfl
  | cell p e l r ihl ihr =>
    rw [deleteNode, toNode, Node.deleteNode, toNode_isNull, toNode_isNull]
    split
    · rw [toNode, ihl]
    · split
      · rw [toNode, ihr]
      · split
        · rfl
        · split
          · rfl
          · rename_i hright
            obtain ⟨q, f, r', -, hmin, -⟩ := exists_minValueNode (Bool.eq_false_iff.mpr hright)
            have hmin' : (toNode r).minValueNode = .node f.1 f.2 .nullptr (toNode r') := by
              rw [← toNode_minValueNode, hmin]
              rfl
            simp only [hmin, hmin', toNode, ihr]

theorem height_insert_le (t : NodeLayout) (temp : Ptr) (key : UInt64) (msg : MessageFormat) :
    (insert t temp key msg).height ≤ t.height + 1 := by
  induction t with
  | nil => exact Nat.le_refl 1
  | cell p e l r ihl ihr =>
    rw [insert]
    split
    · rw [Layout.height, Layout.height]
      omega
    · split
      · rw [Layout.height, Layout.height]
        omega
      · exact Nat.le_succ _

theorem height_deleteNode_le (t : NodeLayout) (key : UInt64) :
    (deleteNode t key).height ≤ t.height := by
  induction t generalizing key with
  | nil => exact Nat.le_refl 0
  | cell p e l r ihl ihr =>
    have hl := ihl key
    have hr := ihr key
    rw [deleteNode, Layout.height]
    split
    · rw [Layout.height]
      omega
    · split
      · rw [Layout.height]
        omega
      · split
        · omega
        · split
          · omega
          · split
            · -- the least key of the right subtree goes instead
              rename_i q f _ _ _
              have hmin := ihr f.1
              rw [Layout.height]
              omega
            · rw [Layout.height]

/-- The tree's order, read off its in-order cells. -/
theorem entries_toNode (t : NodeLayout) : (toNode t).entries = t.cells.map Prod.snd := by
  induction t with
  | nil => rfl
  | cell p e l r ihl ihr =>
    rw [toNode, Node.entries_node, ihl, ihr, Layout.cells, List.map_append, List.map_cons]

end NodeLayout

/-! ## The pointer functions -/

namespace NodePtr

variable {m : NodeMemory} {t : NodeLayout}

theorem search_eq (h : Owns m t) (key : UInt64) {fuel : ℕ} (hfuel : t.height < fuel) :
    search fuel m t.root key = .ok (NodeLayout.search t key).root := by
  induction t generalizing fuel with
  | nil =>
    obtain ⟨n, rfl⟩ := Layout.exists_of_height_lt hfuel
    rfl
  | cell p e l r ihl ihr =>
    obtain ⟨hpnull, hp, hl, hr, -⟩ := owns_cell.mp h
    obtain ⟨n, rfl, hfuell, hfuelr⟩ := Layout.exists_of_height_cell_lt hfuel
    rw [search, NodeLayout.search, Layout.root_cell, if_neg hpnull, Memory.read_eq hpnull hp, ok_bind]
    split
    · rfl
    · split
      · exact ihr hr hfuelr
      · exact ihl hl hfuell

theorem appendToString_eq (h : Owns m t) (s : String) {fuel : ℕ} (hfuel : t.height < fuel) :
    appendToString fuel m t.root s = .ok ((NodeLayout.toNode t).appendToString s) := by
  induction t generalizing fuel s with
  | nil =>
    obtain ⟨n, rfl⟩ := Layout.exists_of_height_lt hfuel
    rfl
  | cell p e l r ihl ihr =>
    obtain ⟨hpnull, hp, hl, hr, -⟩ := owns_cell.mp h
    obtain ⟨n, rfl, hfuell, hfuelr⟩ := Layout.exists_of_height_cell_lt hfuel
    rw [appendToString, Layout.root_cell, if_neg hpnull, Memory.read_eq hpnull hp, ok_bind,
      ihl hl s hfuell, ok_bind]
    exact ihr hr _ hfuelr

theorem minValueNode_eq (h : Owns m t) {fuel : ℕ} (hfuel : t.height < fuel) :
    minValueNode fuel m t.root = .ok (NodeLayout.minValueNode t).root := by
  induction t generalizing fuel with
  | nil =>
    obtain ⟨n, rfl⟩ := Layout.exists_of_height_lt hfuel
    rfl
  | cell p e l r ihl _ =>
    obtain ⟨hpnull, hp, hl, -⟩ := owns_cell.mp h
    obtain ⟨n, rfl, hfuell, hfuelr⟩ := Layout.exists_of_height_cell_lt hfuel
    rw [minValueNode, Layout.root_cell, if_neg hpnull, Memory.read_eq hpnull hp, ok_bind]
    cases l with
    | nil => rfl
    | cell q f ll lr =>
      have hq : q ≠ null := (owns_cell.mp hl).1
      rw [Layout.root_cell, if_pos hq]
      exact ihl hl hfuell

theorem insert_eq (h : Owns m t) {temp : Ptr} (htemp : m.Fresh temp) (key : UInt64)
    (msg : MessageFormat) {fuel : ℕ} (hfuel : t.height < fuel) :
    ∃ m', insert fuel m temp t.root key msg = .ok (m', (NodeLayout.insert t temp key msg).root) ∧
      Rewrites m m' t (NodeLayout.insert t temp key msg) := by
  induction t generalizing fuel with
  | nil =>
    obtain ⟨n, rfl⟩ := Layout.exists_of_height_lt hfuel
    exact ⟨_, rfl, .alloc htemp (key, msg)⟩
  | cell p e l r ihl ihr =>
    obtain ⟨hpnull, hp, hl, hr, -⟩ := owns_cell.mp h
    obtain ⟨n, rfl, hfuell, hfuelr⟩ := Layout.exists_of_height_cell_lt hfuel
    rw [insert, NodeLayout.insert, Layout.root_cell, if_neg hpnull, Memory.read_eq hpnull hp,
      ok_bind]
    by_cases hlt : key < e.1
    · obtain ⟨m', hrun, hrew⟩ := ihl hl hfuell
      have hp' := (Rewrites.left_frame h hrew).2.1
      rw [if_pos hlt, if_pos hlt, hrun, ok_bind, Memory.setLeft_eq hpnull hp']
      exact ⟨_, rfl, .left h hrew⟩
    · rw [if_neg hlt, if_neg hlt]
      by_cases hgt : key > e.1
      · obtain ⟨m', hrun, hrew⟩ := ihr hr hfuelr
        have hp' := (Rewrites.right_frame h hrew).2.1
        rw [if_pos hgt, if_pos hgt, hrun, ok_bind, Memory.setRight_eq hpnull hp']
        exact ⟨_, rfl, .right h hrew⟩
      · rw [if_neg hgt, if_neg hgt]
        exact ⟨m, rfl, .refl h⟩

theorem deleteNode_eq (h : Owns m t) (key : UInt64) {fuel : ℕ} (hfuel : t.height < fuel) :
    ∃ m', deleteNode fuel m t.root key = .ok (m', (NodeLayout.deleteNode t key).root) ∧
      Rewrites m m' t (NodeLayout.deleteNode t key) := by
  induction t generalizing m key fuel with
  | nil =>
    obtain ⟨n, rfl⟩ := Layout.exists_of_height_lt hfuel
    exact ⟨m, rfl, .refl h⟩
  | cell p e l r ihl ihr =>
    obtain ⟨hpnull, hp, hl, hr, -, hpr, -⟩ := owns_cell.mp h
    obtain ⟨n, rfl, hfuell, hfuelr⟩ := Layout.exists_of_height_cell_lt hfuel
    rw [deleteNode, NodeLayout.deleteNode, Layout.root_cell, if_neg hpnull,
      Memory.read_eq hpnull hp, ok_bind]
    by_cases hlt : key < e.1
    · obtain ⟨m', hrun, hrew⟩ := ihl hl key hfuell
      have hp' := (Rewrites.left_frame h hrew).2.1
      rw [if_pos hlt, if_pos hlt, hrun, ok_bind, Memory.setLeft_eq hpnull hp']
      exact ⟨_, rfl, .left h hrew⟩
    rw [if_neg hlt, if_neg hlt]
    by_cases hgt : key > e.1
    · obtain ⟨m', hrun, hrew⟩ := ihr hr key hfuelr
      have hp' := (Rewrites.right_frame h hrew).2.1
      rw [if_pos hgt, if_pos hgt, hrun, ok_bind, Memory.setRight_eq hpnull hp']
      exact ⟨_, rfl, .right h hrew⟩
    rw [if_neg hgt, if_neg hgt]
    cases hnil : l.isNil with
    | true =>
      rw [if_pos (hl.root_eq_null.mpr hnil), if_pos rfl, Memory.delete_eq hpnull hp]
      exact ⟨_, rfl, .release_root h (.inr ⟨rfl, Layout.eq_nil_of_isNil hnil⟩)⟩
    | false =>
    rw [if_neg (mt hl.root_eq_null.mp (by rw [hnil]; exact Bool.false_ne_true)),
      if_neg Bool.false_ne_true]
    cases hnilr : r.isNil with
    | true =>
      rw [if_pos (hr.root_eq_null.mpr hnilr), if_pos rfl, Memory.delete_eq hpnull hp]
      exact ⟨_, rfl, .release_root h (.inl ⟨rfl, Layout.eq_nil_of_isNil hnilr⟩)⟩
    | false =>
    rw [if_neg (mt hr.root_eq_null.mp (by rw [hnilr]; exact Bool.false_ne_true)),
      if_neg Bool.false_ne_true]
    -- the successor `q` lies in the right subtree, so the root's new key does not touch it
    obtain ⟨q, f, r', es, hmin, hcells⟩ := NodeLayout.exists_minValueNode hnilr
    rw [minValueNode_eq hr hfuelr, hmin, ok_bind, Layout.root_cell]
    have hqr : q ∈ r.ptrs := by
      rw [Layout.ptrs, hcells]
      exact List.mem_cons_self
    have hqnull : q ≠ null := fun heq => hr.nonnull (heq ▸ hqr)
    have hqp : q ≠ p := fun heq => hpr (heq ▸ hqr)
    have hq : m q = some ⟨f, null, r'.root⟩ := (hmin ▸ NodeLayout.stores_minValueNode hr.stores).1
    have hset := Rewrites.setData h (f.1, e.2)
    obtain ⟨-, hp1, -, hr1, -⟩ := owns_cell.mp hset.owns
    obtain ⟨m', hrun, hrew⟩ := ihr hr1 f.1 hfuelr
    have hp' := (Rewrites.right_frame hset.owns hrew).2.1
    rw [Memory.read_eq hqnull hq, ok_bind, Memory.setData_eq hpnull hp, ok_bind,
      Memory.read_eq hpnull hp1, ok_bind, Memory.read_eq hqnull ((Memory.set_of_ne hqp).trans hq),
      ok_bind, hrun, ok_bind, Memory.setRight_eq hpnull hp']
    exact ⟨_, rfl, hset.trans (.right hset.owns hrew)⟩

end NodePtr

end MessageTransmitter
