import MessageTransmitter.Receiver.BstImpl

/-!
# The representation of the store

What `bst_impl` keeps true of its pointers and its counter: the tree is a search tree, no key is in
it twice, and `m_size` is the number of nodes that hang off `m_root`.

The notions here are read off the tree itself and not off its in-order contents.
-/

open SortedAssoc

namespace MessageTransmitter

namespace Node

/-- The number of nodes reachable from the root. -/
def nodeCount : Node → ℕ
  | nullptr => 0
  | node _ _ left right => nodeCount left + 1 + nodeCount right

def occurrences : Node → UInt64 → ℕ
  | nullptr, _ => 0
  | node k _ left right, key =>
      occurrences left key + (if k = key then 1 else 0) + occurrences right key

/-- Every node's key is above all keys in its left subtree and below all keys in its right one. -/
def SearchTree : Node → Prop
  | nullptr => True
  | node k _ left right =>
      (∀ q, 0 < left.occurrences q → q < k) ∧ (∀ q, 0 < right.occurrences q → k < q) ∧
        SearchTree left ∧ SearchTree right

theorem nodeCount_eq_length (t : Node) : t.nodeCount = t.entries.length := by
  induction t with
  | nullptr => rfl
  | node k v left right ihl ihr =>
    rw [nodeCount, ihl, ihr, entries_node, List.length_append, List.length_cons]
    omega

theorem occurrences_eq_count (t : Node) (key : UInt64) :
    t.occurrences key = (t.entries.map Prod.fst).count key := by
  induction t with
  | nullptr => rfl
  | node k v left right ihl ihr =>
    rw [occurrences, ihl, ihr, entries_node, List.map_append, List.map_cons, List.count_append,
      List.count_cons]
    simp only [beq_iff_eq]
    omega

theorem occurrences_pos {t : Node} {key : UInt64} : 0 < t.occurrences key ↔ key ∈ keys t.entries := by
  rw [occurrences_eq_count, List.count_pos_iff, keys, List.mem_toFinset]

theorem searchTree_iff_ordered {t : Node} : t.SearchTree ↔ t.Ordered := by
  induction t with
  | nullptr => exact iff_of_true trivial ordered_nullptr
  | node k v left right ihl ihr =>
    -- a bound on the keys is a bound on the entries
    have hbound : ∀ (t : Node) (P : UInt64 → Prop),
        (∀ q, 0 < t.occurrences q → P q) ↔ ∀ e ∈ t.entries, P e.1 := fun t P => by
      simp only [occurrences_pos, mem_keys, Prod.forall, forall_exists_index]
    rw [SearchTree, ordered_node, ihl, ihr, hbound left (· < k), hbound right (k < ·)]
    tauto

theorem Ordered.occurrences_le_one {t : Node} (h : t.Ordered) (key : UInt64) :
    t.occurrences key ≤ 1 := by
  rw [occurrences_eq_count]
  exact List.nodup_iff_count_le_one.mp (Sorted.nodup_keys h) key

end Node

namespace BstImpl

structure Represented (s : BstImpl) : Prop where
  searchTree : s.mRoot.SearchTree
  unique : ∀ key, s.mRoot.occurrences key ≤ 1
  counted : s.mSize.toNat = s.mRoot.nodeCount
  null_iff : s.mRoot = .nullptr ↔ s.mSize = 0

theorem Valid.represented {s : BstImpl} (h : s.Valid) (hmemory : s.mRoot.nodeCount < 2 ^ 64) :
    s.Represented := by
  have hcount : s.mRoot.nodeCount = s.contents.length := s.mRoot.nodeCount_eq_length
  have hsize : s.mSize.toNat = s.contents.length := h.toNat_size (hcount ▸ hmemory)
  refine ⟨Node.searchTree_iff_ordered.mpr h.ordered, h.ordered.occurrences_le_one,
    hsize.trans hcount.symm, ?_⟩
  rw [← UInt64.toNat_inj, hsize, ← Node.entries_eq_nil]
  exact List.length_eq_zero_iff.symm

theorem Valid.nodeCount_insert {s : BstImpl} (h : s.Valid) {k : UInt64}
    (hnew : s.contains k = false) (msg : MessageFormat) :
    (s.insert k msg).mRoot.nodeCount = s.mRoot.nodeCount + 1 := by
  rw [Node.nodeCount_eq_length, Node.nodeCount_eq_length]
  have hperm := perm_insertNew (h.contains_eq_false.mp hnew) msg
  rw [← h.contents_insert k msg] at hperm
  exact hperm.length_eq

/-- Removing a key discards exactly one node, however many children it has. -/
theorem Valid.nodeCount_remove {s : BstImpl} (h : s.Valid) {j : UInt64}
    (hc : s.contains j = true) : (s.remove j).mRoot.nodeCount + 1 = s.mRoot.nodeCount := by
  have hj : j ∈ keys s.contents := h.contains_iff.mp hc
  rw [Node.nodeCount_eq_length, Node.nodeCount_eq_length]
  show (s.remove j).contents.length + 1 = s.contents.length
  -- trees in order have as many nodes as keys
  rw [← (h.remove j).sorted.card_keys, ← h.sorted.card_keys, h.keys_remove,
    Finset.sdiff_singleton_eq_erase]
  exact Finset.card_erase_add_one hj

theorem Valid.size_remove {s : BstImpl} (h : s.Valid) (hmemory : s.mRoot.nodeCount < 2 ^ 64)
    {j : UInt64} (hc : s.contains j = true) : (s.remove j).size.toNat + 1 = s.size.toNat := by
  have hcount := h.nodeCount_remove hc
  have hafter : (s.remove j).mRoot.nodeCount < 2 ^ 64 := by omega
  rw [size, size, ((h.remove j).represented hafter).counted, (h.represented hmemory).counted]
  exact hcount

/-- After any sequence of calls the representation invariant holds, a further insertion adds one
node or changes nothing, and a further removal discards one node and counts one down or changes
nothing. -/
theorem represented_run (calls : List Call) (hmemory : (run calls).mRoot.nodeCount < 2 ^ 64) :
    (run calls).Represented ∧
      (∀ k msg, ((run calls).contains k = false →
          ((run calls).insert k msg).mRoot.nodeCount = (run calls).mRoot.nodeCount + 1) ∧
        ((run calls).contains k = true → (run calls).insert k msg = run calls)) ∧
      ∀ j, ((run calls).contains j = true →
          ((run calls).remove j).mRoot.nodeCount + 1 = (run calls).mRoot.nodeCount ∧
            ((run calls).remove j).size.toNat + 1 = (run calls).size.toNat) ∧
        ((run calls).contains j = false → (run calls).remove j = run calls) := by
  have hvalid := valid_run calls
  refine ⟨hvalid.represented hmemory, fun k msg => ⟨fun hnew => hvalid.nodeCount_insert hnew msg,
    fun hc => insert_of_contains hc msg⟩,
    fun j => ⟨fun hc => ⟨hvalid.nodeCount_remove hc, hvalid.size_remove hmemory hc⟩, fun hc => ?_⟩⟩
  rw [remove, hc]
  rfl

/-- Five nodes, from which the root with its two children is removed. -/
theorem represented_run_root_of_five :
    let calls : List Call := [.insert 5 {}, .insert 2 {}, .insert 8 {}, .add ⟨0, 0, 6, 1⟩,
      .insert 9 {}, .insert 6 {}]
    (run calls).mRoot.nodeCount = 5 ∧ (run calls).Represented ∧
      ((run calls).remove 5).mRoot.nodeCount + 1 = (run calls).mRoot.nodeCount := by
  intro calls
  have hcount : (run calls).mRoot.nodeCount = 5 := by decide
  have h := represented_run calls (by rw [hcount]; decide)
  exact ⟨hcount, h.1, ((h.2.2 5).1 (by decide)).1⟩

end BstImpl

end MessageTransmitter
