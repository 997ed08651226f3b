import MessageTransmitter.Common.MessageFormat
import MessageTransmitter.Library.SortedAssoc

/-!
# The search tree

`udp_receiver/bst_api.h`.  A `Node *` is a tree value: null, or a node with its two subtrees.  The
code updates nodes in place and every caller keeps the returned pointer, so each function returns
the tree that hangs off the pointer it returns.

All facts about the tree are stated through `entries`, its in-order list of key/value pairs.
-/

open SortedAssoc

namespace MessageTransmitter

inductive Node where
  | nullptr
  | node (key : UInt64) (value : MessageFormat) (left right : Node)
  deriving DecidableEq, Repr, Inhabited

namespace Node

def fields? : Node → Option (UInt64 × MessageFormat)
  | nullptr => none
  | node key value _ _ => some (key, value)

def isNull : Node → Bool
  | nullptr => true
  | node _ _ _ _ => false

def makeNode (key : UInt64) (value : MessageFormat) : Node := node key value nullptr nullptr

def appendToString : Node → String → String
  | nullptr, s => s
  | node key value left right, s =>
      let s := appendToString left s
      let s := s ++ "[" ++ toString key.toNat ++ "] = " ++ value.toStringCompact ++ "\n"
      appendToString right s

def toString (root : Node) : String := appendToString root ""

def search : Node → UInt64 → Node
  | nullptr, _ => nullptr
  | node k v left right, key =>
      if k = key then node k v left right
      else if k < key then search right key
      else search left key

def insert : Node → UInt64 → MessageFormat → Node
  | nullptr, key, msg => makeNode key msg
  | node k v left right, key, msg =>
      if key < k then node k v (insert left key msg) right
      else if key > k then node k v left (insert right key msg)
      -- the key is there already: its node keeps its message
      else node k v left right

def minValueNode : Node → Node
  -- the loop follows `left` until it is null
  | nullptr => nullptr
  | node k v nullptr right => node k v nullptr right
  | node _ _ (node k v left right) _ => minValueNode (node k v left right)

def deleteNode : Node → UInt64 → Node
  | nullptr, _ => nullptr
  | node k v left right, key =>
      if key < k then node k v (deleteNode left key) right
      else if key > k then node k v left (deleteNode right key)
      else if left.isNull then right
      else if right.isNull then left
      else match minValueNode right with
        -- only the key of the successor is copied, the node keeps its own value
        | node tempKey _ _ _ => node tempKey v left (deleteNode right tempKey)
        -- not reached: the right subtree is not null here
        | nullptr => node k v left right

/-! ## The in-order contents -/

def entries : Node → List (UInt64 × MessageFormat)
  | nullptr => []
  | node k v left right => entries left ++ (k, v) :: entries right

@[simp] theorem entries_nullptr : entries nullptr = [] := rfl

@[simp] theorem entries_node (k : UInt64) (v : MessageFormat) (left right : Node) :
    entries (node k v left right) = entries left ++ (k, v) :: entries right := rfl

theorem entries_eq_nil {t : Node} : entries t = [] ↔ t = nullptr := by
  cases t <;> simp

theorem exists_entries_cons {t : Node} (h : t.isNull = false) :
    ∃ k v es, entries t = (k, v) :: es := by
  cases t with
  | nullptr => cases h
  | node c w left right =>
    cases hes : entries left with
    | nil => exact ⟨c, w, entries right, by rw [entries_node, hes, List.nil_append]⟩
    | cons e es => exact ⟨e.1, e.2, _, by rw [entries_node, hes, List.cons_append]⟩

/-- The search-tree order: keys strictly increase in order. -/
def Ordered (t : Node) : Prop := Sorted (entries t)

theorem ordered_nullptr : Ordered nullptr := sorted_nil

theorem ordered_node {k : UInt64} {v : MessageFormat} {left right : Node} :
    Ordered (node k v left right) ↔ Ordered left ∧ Ordered right ∧
      (∀ e ∈ entries left, e.1 < k) ∧ (∀ e ∈ entries right, k < e.1) := sorted_pivot

/-! ## Rendering -/

def entryLine (e : UInt64 × MessageFormat) : String :=
  "[" ++ ToString.toString e.1.toNat ++ "] = " ++ e.2.toStringCompact ++ "\n"

theorem appendToString_eq (t : Node) (s : String) :
    appendToString t s = (entries t).foldl (fun acc e => acc ++ entryLine e) s := by
  induction t generalizing s with
  | nullptr => rfl
  | node k v left right ihl ihr =>
    rw [appendToString, ihl, ihr, entries_node, List.foldl_append, List.foldl_cons]
    simp only [entryLine, String.append_assoc]

theorem toString_eq (t : Node) :
    t.toString = (entries t).foldl (fun acc e => acc ++ entryLine e) "" :=
  appendToString_eq t ""

/-! ## Search -/

theorem search_fields? {t : Node} (h : t.Ordered) (key : UInt64) :
    (t.search key).fields? = ((entries t).lookup key).map fun v => (key, v) := by
  induction t with
  | nullptr => rfl
  | node k v left right ihl ihr =>
    obtain ⟨hl, hr, -, -⟩ := ordered_node.mp h
    rw [search, entries_node, Sorted.lookup_pivot h]
    -- the order justifies that the search looks at one side only
    by_cases heq : k = key
    · subst heq
      simp only [if_true, lt_irrefl, if_false, fields?, Option.map_some]
    · rw [if_neg heq]
      by_cases hlt : k < key
      · rw [if_pos hlt, ihr hr, if_neg (lt_asymm hlt), if_pos hlt]
      · rw [if_neg hlt, ihl hl, if_pos (lt_of_le_of_ne (le_of_not_gt hlt) (Ne.symm heq))]

theorem fields?_eq_none {t : Node} : t.fields? = none ↔ t = nullptr := by
  cases t <;> simp [fields?]

theorem search_eq_nullptr {t : Node} (h : t.Ordered) {key : UInt64} :
    t.search key = nullptr ↔ key ∉ keys (entries t) := by
  rw [← fields?_eq_none, search_fields? h, Option.map_eq_none_iff, SortedAssoc.lookup_eq_none]

/-! ## Insertion -/

theorem entries_insert {t : Node} (h : t.Ordered) (key : UInt64) (msg : MessageFormat) :
    entries (t.insert key msg) = insertNew key msg (entries t) := by
  induction t with
  | nullptr => rfl
  | node k v left right ihl ihr =>
    obtain ⟨hl, hr, hleft, -⟩ := ordered_node.mp h
    rw [insert, entries_node]
    -- `insert` goes to the side of the root on which `insertNew` finds the place
    by_cases hlt : key < k
    · rw [if_pos hlt, entries_node, ihl hl, insertNew_left hlt]
    · rw [if_neg hlt]
      by_cases hgt : key > k
      · rw [if_pos hgt, entries_node, ihr hr,
          insertNew_right fun e he => (hleft e he).trans hgt]
        simp only [insertNew, if_neg hlt, if_pos hgt]
      · have heq : key = k := le_antisymm (le_of_not_gt hgt) (le_of_not_gt hlt)
        subst heq
        rw [if_neg hgt, insertNew_pivot hleft, entries_node]

/-! ## The leftmost node -/

theorem minValueNode_fields? (t : Node) : (minValueNode t).fields? = (entries t).head? := by
  induction t with
  | nullptr => rfl
  | node k v left right ihl _ =>
    cases left with
    | nullptr => rfl
    | node lk lv ll lr =>
      rw [minValueNode, ihl, entries_node k v]
      simp

theorem search_head {t : Node} (h : t.Ordered) {k : UInt64} {v : MessageFormat}
    {es : List (UInt64 × MessageFormat)} (he : entries t = (k, v) :: es) :
    ∃ right, t.search k = node k v nullptr right := by
  induction t generalizing es with
  | nullptr => simp at he
  | node c w left right ihl _ =>
    obtain ⟨hl, -, hleft, -⟩ := ordered_node.mp h
    cases hes : entries left with
    | nil =>
      -- no smaller key, so the first one is at the root
      rw [entries_node, hes, List.nil_append] at he
      obtain ⟨rfl, rfl⟩ := Prod.mk.inj (List.cons.inj he).1
      exact ⟨right, by rw [search, if_pos rfl, entries_eq_nil.mp hes]⟩
    | cons e es' =>
      rw [entries_node, hes, List.cons_append] at he
      obtain ⟨rfl, -⟩ := List.cons.inj he
      have hlt : k < c := hleft (k, v) (by rw [hes]; exact List.mem_cons_self)
      rw [search, if_neg (ne_of_gt hlt), if_neg (lt_asymm hlt)]
      exact ihl hl hes

/-! ## Deletion -/

/-- Deleting `key` relocates a key to a foreign message: the node that is found has two children,
and its in-order successor carries a different value. -/
def relocates (t : Node) (key : UInt64) : Bool :=
  match t.search key with
  | node _ v (node _ _ _ _) right => (minValueNode right).fields?.any fun e => e.2 ≠ v
  | _ => false

theorem relocates_left {k key : UInt64} {v : MessageFormat} {left right : Node} (h : key < k) :
    relocates (node k v left right) key = relocates left key := by
  rw [relocates, relocates, search, if_neg (ne_of_gt h), if_neg (lt_asymm h)]

theorem relocates_right {k key : UInt64} {v : MessageFormat} {left right : Node} (h : k < key) :
    relocates (node k v left right) key = relocates right key := by
  rw [relocates, relocates, search, if_neg (ne_of_lt h), if_pos h]

theorem relocates_head {t : Node} (h : t.Ordered) {k : UInt64} {v : MessageFormat}
    {es : List (UInt64 × MessageFormat)} (he : entries t = (k, v) :: es) :
    t.relocates k = false := by
  obtain ⟨right, hs⟩ := search_head h he
  rw [relocates, hs]

theorem relocates_root {k s : UInt64} {v w : MessageFormat} {left right : Node}
    {es : List (UInt64 × MessageFormat)} (hleft : left.isNull = false)
    (he : entries right = (s, w) :: es) :
    relocates (node k v left right) k = decide (w ≠ v) := by
  cases left with
  | nullptr => cases hleft
  | node lk lv ll lr =>
    simp only [relocates, search, if_true, minValueNode_fields?, he, List.head?_cons, Option.any_some]

theorem relocates_root_of_null {k : UInt64} {v : MessageFormat} {left right : Node}
    (h : left.isNull = true ∨ right.isNull = true) :
    relocates (node k v left right) k = false := by
  rw [relocates, search, if_pos rfl]
  cases left with
  | nullptr => rfl
  | node lk lv ll lr =>
    cases right with
    | nullptr => rfl
    | node => simp [isNull] at h

theorem entries_deleteNode_root_of_null {k : UInt64} {v : MessageFormat} {left right : Node}
    (h : left.isNull = true ∨ right.isNull = true) :
    entries ((node k v left right).deleteNode k) = entries left ++ entries right := by
  rw [deleteNode, if_neg (lt_irrefl k), if_neg (lt_irrefl k)]
  cases left with
  | nullptr => rfl
  | node lk lv ll lr =>
    cases right with
    | nullptr => exact (List.append_nil _).symm
    | node => simp [isNull] at h

/-- With two children the root takes the successor's key, and the successor leaves the right
subtree. -/
theorem entries_deleteNode_root {k s : UInt64} {v w : MessageFormat} {left right : Node}
    {es : List (UInt64 × MessageFormat)} (hleft : left.isNull = false)
    (he : entries right = (s, w) :: es) (hdel : entries (right.deleteNode s) = es) :
    entries ((node k v left right).deleteNode k) = entries left ++ (s, v) :: es := by
  have hmin : (minValueNode right).fields? = some (s, w) := by
    rw [minValueNode_fields?, he, List.head?_cons]
  have hright : right.isNull = false := by
    cases right with
    | nullptr => cases he
    | node => rfl
  rw [deleteNode, if_neg (lt_irrefl k), if_neg (lt_irrefl k), hleft, hright]
  cases hm : minValueNode right with
  | nullptr => rw [hm] at hmin; cases hmin
  | node c u l r =>
    rw [hm] at hmin
    obtain ⟨rfl, rfl⟩ := Prod.mk.inj (Option.some.inj hmin)
    simp only [Bool.false_eq_true, if_false, entries_node, hdel]

/-- A deletion that relocates nothing drops exactly the entry under its key. -/
theorem entries_deleteNode {t : Node} (h : t.Ordered) {key : UInt64}
    (hkeep : t.relocates key = false) : entries (t.deleteNode key) = erase key (entries t) := by
  induction t generalizing key with
  | nullptr => rfl
  | node k v left right ihl ihr =>
    obtain ⟨hl, hr, hleft, hright⟩ := ordered_node.mp h
    rw [entries_node]
    by_cases hlt : key < k
    · -- the key is in the left subtree, the rest is kept
      have hgt : ∀ e ∈ (k, v) :: entries right, key < e.1 := fun e he => by
        rcases List.mem_cons.mp he with rfl | he
        · exact hlt
        · exact hlt.trans (hright e he)
      rw [deleteNode, if_pos hlt, entries_node, ihl hl (relocates_left hlt ▸ hkeep),
        erase_left hgt]
    · by_cases hgt : key > k
      · rw [deleteNode, if_neg hlt, if_pos hgt, entries_node,
          ihr hr (relocates_right hgt ▸ hkeep),
          erase_right fun e he => (hleft e he).trans hgt, erase_cons_of_ne (ne_of_lt hgt)]
      · have heq : key = k := le_antisymm (le_of_not_gt hgt) (le_of_not_gt hlt)
        subst heq
        have herase : erase key (entries left ++ (key, v) :: entries right) =
            entries left ++ entries right := by
          rw [erase_right hleft, erase_cons_self]
          exact congrArg _ (erase_left (l := []) hright)
        rw [herase]
        by_cases hchild : left.isNull = true ∨ right.isNull = true
        · exact entries_deleteNode_root_of_null hchild
        · rw [not_or, Bool.not_eq_true, Bool.not_eq_true] at hchild
          obtain ⟨s, w, es, hes⟩ := exists_entries_cons hchild.2
          -- the successor is the front of the right subtree, so removing it relocates nothing
          have hdel : entries (right.deleteNode s) = es := by
            rw [ihr hr (relocates_head hr hes), hes]
            exact Sorted.erase_head (hes ▸ hr)
          -- and the root's message is the successor's, so its own key may as well keep it
          rw [relocates_root hchild.1 hes, decide_eq_false_iff_not, not_not] at hkeep
          rw [entries_deleteNode_root hchild.1 hes hdel, hes, hkeep]

/-- A relocating deletion leaves the deleted entry's message under the successor's key. -/
theorem entries_deleteNode_of_relocates {t : Node} (h : t.Ordered) {key : UInt64}
    (hreloc : t.relocates key = true) :
    ∃ l r v s w, w ≠ v ∧ entries t = l ++ (key, v) :: (s, w) :: r ∧
      entries (t.deleteNode key) = l ++ (s, v) :: r := by
  induction t with
  | nullptr => cases hreloc
  | node k v left right ihl ihr =>
    obtain ⟨hl, hr, -, -⟩ := ordered_node.mp h
    by_cases hlt : key < k
    · obtain ⟨l, r, x, s, w, hne, he, hdel⟩ := ihl hl (relocates_left hlt ▸ hreloc)
      refine ⟨l, r ++ (k, v) :: entries right, x, s, w, hne, ?_, ?_⟩
      · rw [entries_node, he, List.append_assoc, List.cons_append, List.cons_append]
      · rw [deleteNode, if_pos hlt, entries_node, hdel, List.append_assoc, List.cons_append]
    · by_cases hgt : key > k
      · obtain ⟨l, r, x, s, w, hne, he, hdel⟩ := ihr hr (relocates_right hgt ▸ hreloc)
        refine ⟨entries left ++ (k, v) :: l, r, x, s, w, hne, ?_, ?_⟩
        · rw [entries_node, he, List.append_assoc, List.cons_append]
        · rw [deleteNode, if_neg hlt, if_pos hgt, entries_node, hdel, List.append_assoc,
            List.cons_append]
      · have heq : key = k := le_antisymm (le_of_not_gt hgt) (le_of_not_gt hlt)
        subst heq
        by_cases hchild : left.isNull = true ∨ right.isNull = true
        · rw [relocates_root_of_null hchild] at hreloc
          cases hreloc
        · rw [not_or, Bool.not_eq_true, Bool.not_eq_true] at hchild
          obtain ⟨s, w, es, hes⟩ := exists_entries_cons hchild.2
          have hdel : entries (right.deleteNode s) = es := by
            rw [entries_deleteNode hr (relocates_head hr hes), hes]
            exact Sorted.erase_head (hes ▸ hr)
          rw [relocates_root hchild.1 hes, decide_eq_true_iff] at hreloc
          refine ⟨entries left, es, v, s, w, hreloc, ?_, ?_⟩
          · rw [entries_node, hes]
          · exact entries_deleteNode_root hchild.1 hes hdel

/-- Whatever happens to the messages, a deletion removes exactly its key. -/
theorem keys_entries_deleteNode {t : Node} (h : t.Ordered) (key : UInt64) :
    keys (entries (t.deleteNode key)) = keys (entries t) \ {key} := by
  cases hreloc : t.relocates key with
  | false => rw [entries_deleteNode h hreloc, keys_erase]
  | true =>
    obtain ⟨l, r, v, s, w, -, he, hdel⟩ := entries_deleteNode_of_relocates h hreloc
    -- the two lists differ in the message under `s` only
    have herase : erase key (entries t) = l ++ (s, w) :: r := by
      rw [Ordered, he] at h
      obtain ⟨-, hr, hl, hgt⟩ := sorted_pivot.mp h
      rw [he, erase_right hl, Sorted.erase_head (sorted_cons.mpr ⟨hgt, hr⟩)]
    rw [← keys_erase, herase, hdel]
    simp only [keys, List.map_append, List.map_cons]

theorem Ordered.deleteNode {t : Node} (h : t.Ordered) (key : UInt64) :
    (t.deleteNode key).Ordered := by
  rw [Ordered]
  cases hreloc : t.relocates key with
  | false =>
    rw [entries_deleteNode h hreloc]
    exact Sorted.erase h key
  | true =>
    obtain ⟨l, r, v, s, w, -, he, hdel⟩ := entries_deleteNode_of_relocates h hreloc
    rw [Ordered, he] at h
    obtain ⟨hl, hr, hlk, hkr⟩ := sorted_pivot.mp h
    have hks : key < s := hkr (s, w) List.mem_cons_self
    rw [hdel]
    refine sorted_pivot.mpr ⟨hl, (sorted_cons.mp hr).2, fun e he => (hlk e he).trans hks, ?_⟩
    exact (sorted_cons.mp hr).1

end Node

end MessageTransmitter
