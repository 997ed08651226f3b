import MessageTransmitter.Receiver.BstApi

/-!
# The store

`udp_receiver/bst_impl.cpp`: a tree together with a separately maintained element counter.  On its
keys the store is a mathematical set (`BstImpl.run_refines_set`); what it does to the messages is
the subject of `Attachment`.
-/

open SortedAssoc

namespace MessageTransmitter

/-- The ways a call on the store fails: a null node is dereferenced, or `at` throws. -/
inductive Fault where
  | nullDereference
  | outOfRange
  deriving DecidableEq, Repr

structure BstImpl where
  mRoot : Node := .nullptr
  mSize : UInt64 := 0
  deriving DecidableEq, Repr, Inhabited

namespace BstImpl

def contains (s : BstImpl) (msgId : UInt64) : Bool :=
  let node := s.mRoot.search msgId
  !node.isNull

def insert (s : BstImpl) (msgId : UInt64) (msg : MessageFormat) : BstImpl :=
  -- first wins: a key that is present keeps its message
  if !s.contains msgId then
    { mRoot := if !s.mRoot.isNull then s.mRoot.insert msgId msg else Node.makeNode msgId msg
      mSize := s.mSize + 1 }
  else s

def add (s : BstImpl) (msg : MessageFormat) : BstImpl := s.insert msg.messageId msg

/-- `at(msg_id)` -/
def atId (s : BstImpl) (msgId : UInt64) : Except Fault MessageFormat :=
  if !s.contains msgId then .error .outOfRange
  else match s.mRoot.search msgId with
    | .node _ value _ _ => .ok value
    | .nullptr => .error .nullDereference

def beginIndex (s : BstImpl) : Except Fault UInt64 :=
  match s.mRoot.minValueNode with
  | .node key _ _ _ => .ok key
  | .nullptr => .error .nullDereference

def beginValue (s : BstImpl) : Except Fault MessageFormat := do
  let index ← s.beginIndex
  s.atId index

def remove (s : BstImpl) (msgId : UInt64) : BstImpl :=
  if s.contains msgId then
    { mRoot := s.mRoot.deleteNode msgId
      mSize := s.mSize - 1 }
  else s

def toString (s : BstImpl) : String := s.mRoot.toString

def size (s : BstImpl) : UInt64 := s.mSize

def empty (s : BstImpl) : Bool := s.size = 0

/-! ## The representation invariant -/

def contents (s : BstImpl) : List (UInt64 × MessageFormat) := s.mRoot.entries

/-- The tree is ordered and the counter counts its nodes, modulo the width of `size_t`. -/
structure Valid (s : BstImpl) : Prop where
  ordered : s.mRoot.Ordered
  counted : s.mSize = UInt64.ofNat s.contents.length

theorem valid_empty : Valid {} := ⟨Node.ordered_nullptr, rfl⟩

theorem Valid.sorted {s : BstImpl} (h : s.Valid) : Sorted s.contents := h.ordered

theorem Valid.contains_iff {s : BstImpl} (h : s.Valid) {k : UInt64} :
    s.contains k = true ↔ k ∈ keys s.contents := by
  have hnull : ∀ t : Node, t.isNull = false ↔ t ≠ .nullptr := fun t => by
    cases t <;> simp [Node.isNull]
  rw [contains, Bool.not_eq_true', hnull, Ne, Node.search_eq_nullptr h.ordered, not_not]
  rfl

theorem Valid.contains_eq_false {s : BstImpl} (h : s.Valid) {k : UInt64} :
    s.contains k = false ↔ k ∉ keys s.contents := by
  rw [← h.contains_iff, Bool.not_eq_true]

theorem Valid.contains_eq_isSome {s : BstImpl} (h : s.Valid) (k : UInt64) :
    s.contains k = (s.contents.lookup k).isSome := by
  rw [Bool.eq_iff_iff, h.contains_iff, lookup_isSome]

/-! ## What each call does to the contents -/

theorem Valid.contents_insert {s : BstImpl} (h : s.Valid) (k : UInt64) (msg : MessageFormat) :
    (s.insert k msg).contents = insertNew k msg s.contents := by
  rw [insert]
  cases hc : s.contains k with
  | true => exact (Sorted.insertNew_of_mem h.sorted (h.contains_iff.mp hc) msg).symm
  | false =>
    -- the branch on a null root makes the same tree as `insert` would
    have hroot : (if !s.mRoot.isNull then s.mRoot.insert k msg else Node.makeNode k msg) =
        s.mRoot.insert k msg := by
      cases s.mRoot <;> rfl
    simp only [Bool.not_false, if_true, hroot]
    exact Node.entries_insert h.ordered k msg

theorem Valid.keys_insert {s : BstImpl} (h : s.Valid) (k : UInt64) (msg : MessageFormat) :
    keys (s.insert k msg).contents = keys s.contents ∪ {k} := by
  rw [h.contents_insert, h.sorted.keys_insertNew]

theorem insert_of_contains {s : BstImpl} {k : UInt64} (h : s.contains k = true)
    (msg : MessageFormat) : s.insert k msg = s := by
  rw [insert, h]
  rfl

theorem Valid.contents_remove {s : BstImpl} (h : s.Valid) {k : UInt64}
    (hkeep : s.mRoot.relocates k = false) : (s.remove k).contents = erase k s.contents := by
  rw [remove]
  cases hc : s.contains k with
  | true => exact Node.entries_deleteNode h.ordered hkeep
  | false => exact (erase_of_notMem (h.contains_eq_false.mp hc)).symm

theorem Valid.keys_remove {s : BstImpl} (h : s.Valid) (k : UInt64) :
    keys (s.remove k).contents = keys s.contents \ {k} := by
  rw [remove]
  cases hc : s.contains k with
  | true => exact Node.keys_entries_deleteNode h.ordered k
  | false =>
    rw [Finset.sdiff_singleton_eq_erase, Finset.erase_eq_of_notMem (h.contains_eq_false.mp hc)]
    rfl

theorem Valid.insert {s : BstImpl} (h : s.Valid) (k : UInt64) (msg : MessageFormat) :
    (s.insert k msg).Valid := by
  have hcontents := h.contents_insert k msg
  constructor
  · show Sorted (s.insert k msg).contents
    rw [hcontents]
    exact h.sorted.insertNew k msg
  · rw [hcontents]
    cases hc : s.contains k with
    | true =>
      rw [Sorted.insertNew_of_mem h.sorted (h.contains_iff.mp hc), BstImpl.insert, hc]
      exact h.counted
    | false =>
      rw [(perm_insertNew (h.contains_eq_false.mp hc) msg).length_eq, List.length_cons,
        BstImpl.insert, hc, UInt64.ofNat_add, ← h.counted]
      rfl

theorem Valid.contains_insert {s : BstImpl} (h : s.Valid) (k : UInt64) (msg : MessageFormat)
    (k' : UInt64) : (s.insert k msg).contains k' = true ↔ k' = k ∨ s.contains k' = true := by
  rw [(h.insert k msg).contains_iff, h.keys_insert, Finset.mem_union, Finset.mem_singleton,
    ← h.contains_iff]
  exact or_comm

theorem Valid.remove {s : BstImpl} (h : s.Valid) (k : UInt64) : (s.remove k).Valid := by
  have hkeys := h.keys_remove k
  have hordered : (s.remove k).mRoot.Ordered := by
    rw [BstImpl.remove]
    split
    · exact h.ordered.deleteNode k
    · exact h.ordered
  have hlen : (s.remove k).contents.length = (keys s.contents \ {k}).card := by
    rw [← hkeys]
    exact (Sorted.card_keys hordered).symm
  refine ⟨hordered, ?_⟩
  rw [hlen]
  cases hc : s.contains k with
  | true =>
    have hk := h.contains_iff.mp hc
    have hpos : 0 < (keys s.contents).card := Finset.card_pos.mpr ⟨k, hk⟩
    -- the key was there, so the counter is not 0 and does not wrap
    rw [Finset.card_sdiff_of_subset (Finset.singleton_subset_iff.mpr hk), Finset.card_singleton,
      UInt64.ofNat_sub hpos, Sorted.card_keys h.sorted, ← h.counted, BstImpl.remove, hc]
    rfl
  | false =>
    rw [Finset.sdiff_singleton_eq_erase, Finset.erase_eq_of_notMem (h.contains_eq_false.mp hc),
      Sorted.card_keys h.sorted, ← h.counted, BstImpl.remove, hc]
    rfl

/-! ## What each query returns -/

theorem Valid.atId_eq {s : BstImpl} (h : s.Valid) (k : UInt64) :
    s.atId k = (s.contents.lookup k).elim (.error .outOfRange) .ok := by
  have hsearch := Node.search_fields? h.ordered k
  rw [atId, contains]
  cases hs : s.mRoot.search k with
  | nullptr =>
    rw [hs] at hsearch
    rw [contents, Option.map_eq_none_iff.mp hsearch.symm]
    rfl
  | node c v l r =>
    rw [hs] at hsearch
    obtain ⟨w, hw, heq⟩ := Option.map_eq_some_iff.mp hsearch.symm
    obtain ⟨-, rfl⟩ := Prod.mk.inj heq
    rw [contents, hw]
    rfl

theorem Valid.atId_ok_iff {s : BstImpl} (h : s.Valid) {k : UInt64} {msg : MessageFormat} :
    s.atId k = .ok msg ↔ (k, msg) ∈ s.contents := by
  rw [h.atId_eq, ← h.sorted.lookup_eq_some]
  cases s.contents.lookup k <;> simp

/-- Under a key that was free an insertion puts its message. -/
theorem Valid.atId_insert {s : BstImpl} (h : s.Valid) {k : UInt64} (hfree : s.contains k = false)
    (msg : MessageFormat) : (s.insert k msg).atId k = .ok msg := by
  have hnone : s.contents.lookup k = none := lookup_eq_none.mpr (h.contains_eq_false.mp hfree)
  rw [(h.insert k msg).atId_ok_iff, ← (h.insert k msg).sorted.lookup_eq_some, h.contents_insert,
    h.sorted.lookup_insertNew, if_pos rfl, hnone]
  rfl

theorem beginIndex_eq (s : BstImpl) :
    s.beginIndex = s.contents.head?.elim (.error .nullDereference) fun e => .ok e.1 := by
  rw [beginIndex, contents, ← Node.minValueNode_fields?]
  cases s.mRoot.minValueNode <;> rfl

theorem beginIndex_of_cons {s : BstImpl} {k : UInt64} {v : MessageFormat}
    {es : List (UInt64 × MessageFormat)} (he : s.contents = (k, v) :: es) :
    s.beginIndex = .ok k := by
  rw [beginIndex_eq, he]
  rfl

theorem Valid.beginValue_of_cons {s : BstImpl} (h : s.Valid) {k : UInt64} {v : MessageFormat}
    {es : List (UInt64 × MessageFormat)} (he : s.contents = (k, v) :: es) :
    s.beginValue = .ok v := by
  have hv : s.atId k = .ok v := h.atId_ok_iff.mpr (he ▸ List.mem_cons_self)
  rw [beginValue, beginIndex_of_cons he]
  exact hv

theorem Valid.contents_remove_front {s : BstImpl} (h : s.Valid) {k : UInt64} {v : MessageFormat}
    {es : List (UInt64 × MessageFormat)} (he : s.contents = (k, v) :: es) :
    (s.remove k).contents = es := by
  rw [h.contents_remove (Node.relocates_head h.ordered he), he]
  exact Sorted.erase_head (he ▸ h.sorted)

theorem Valid.size_eq {s : BstImpl} (h : s.Valid) :
    s.size = UInt64.ofNat (keys s.contents).card := by
  rw [size, h.counted, h.sorted.card_keys]

theorem Valid.toNat_size {s : BstImpl} (h : s.Valid) (hlt : s.contents.length < 2 ^ 64) :
    s.size.toNat = s.contents.length := by
  rw [size, h.counted, UInt64.toNat_ofNat', Nat.mod_eq_of_lt hlt]

theorem Valid.contents_ne_nil {s : BstImpl} (h : s.Valid) (hempty : s.empty = false) :
    s.contents ≠ [] := by
  intro hnil
  rw [empty, size, h.counted, hnil] at hempty
  exact absurd hempty (by decide)

theorem size_remove_of_not_empty {s : BstImpl} {k : UInt64} (hc : s.contains k = true)
    (hempty : s.empty = false) : (s.remove k).size.toNat + 1 = s.size.toNat := by
  have hsize : s.mSize ≠ 0 := of_decide_eq_false hempty
  have hpos : 0 < s.mSize.toNat := Nat.pos_of_ne_zero fun h => hsize (UInt64.toNat_inj.mp h)
  have hone : (1 : UInt64) ≤ s.mSize := UInt64.le_iff_toNat_le.mpr hpos
  rw [remove, hc]
  show (s.mSize - 1).toNat + 1 = s.mSize.toNat
  rw [UInt64.toNat_sub_of_le _ _ hone]
  exact Nat.sub_add_cancel hpos

/-- Below the width of `size_t` a store with an entry does not call itself empty. -/
theorem Valid.empty_eq_false {s : BstImpl} (h : s.Valid) (hlt : s.contents.length < 2 ^ 64)
    (hne : 0 < s.contents.length) : s.empty = false := by
  have hsize : s.size.toNat = s.contents.length := h.toNat_size hlt
  rw [empty, decide_eq_false_iff_not, ← UInt64.toNat_inj, hsize]
  exact Nat.ne_of_gt hne

/-- The two stores contain the same keys, with the same messages under them. -/
def SameMapping (s t : BstImpl) : Prop :=
  ∀ k, s.contains k = t.contains k ∧ (s.contains k = true → s.atId k = t.atId k)

theorem Valid.sameMapping_iff {s t : BstImpl} (hs : s.Valid) (ht : t.Valid) :
    s.SameMapping t ↔ s.contents = t.contents := by
  apply Iff.intro
  · intro h
    apply hs.sorted.ext ht.sorted
    intro k
    obtain ⟨hcontains, hat⟩ := h k
    rw [hs.contains_eq_isSome, ht.contains_eq_isSome] at hcontains
    rw [hs.contains_eq_isSome, hs.atId_eq, ht.atId_eq] at hat
    cases hl : s.contents.lookup k with
    | none =>
      rw [hl] at hcontains
      exact (Option.isNone_iff_eq_none.mp (Option.isSome_eq_false_iff.mp hcontains.symm)).symm
    | some m =>
      rw [hl] at hcontains hat
      obtain ⟨n, hn⟩ := Option.isSome_iff_exists.mp hcontains.symm
      rw [hn] at hat ⊢
      exact congrArg some (Except.ok.inj (hat rfl))
  · intro h k
    rw [hs.contains_eq_isSome, ht.contains_eq_isSome, hs.atId_eq, ht.atId_eq, h]
    exact ⟨rfl, fun _ => rfl⟩

theorem SameMapping.symm {s t : BstImpl} (h : s.SameMapping t) : t.SameMapping s := fun k => by
  obtain ⟨hcontains, hat⟩ := h k
  exact ⟨hcontains.symm, fun hk => (hat (hcontains.trans hk)).symm⟩

theorem SameMapping.insert {s t : BstImpl} (hs : s.Valid) (ht : t.Valid) (h : s.SameMapping t)
    (k : UInt64) (msg : MessageFormat) : (s.insert k msg).SameMapping (t.insert k msg) := by
  rw [(hs.insert k msg).sameMapping_iff (ht.insert k msg), hs.contents_insert, ht.contents_insert,
    (hs.sameMapping_iff ht).mp h]

/-- An insertion into one of two like stores shows unless its key is there already. -/
theorem SameMapping.insert_left_iff {s t : BstImpl} (hs : s.Valid) (h : s.SameMapping t)
    (k : UInt64) (msg : MessageFormat) :
    (s.insert k msg).SameMapping t ↔ s.contains k = true := by
  apply Iff.intro
  · intro hsame
    have hnew : (s.insert k msg).contains k = true := (hs.contains_insert k msg k).mpr (.inl rfl)
    rw [(h k).1, ← (hsame k).1, hnew]
  · intro hk
    rw [insert_of_contains hk]
    exact h

theorem toString_eq (s : BstImpl) :
    s.toString = s.contents.foldl (fun acc e => acc ++ Node.entryLine e) "" :=
  Node.toString_eq s.mRoot

/-! ## Runs of calls -/

inductive Call where
  | add (msg : MessageFormat)
  | insert (msgId : UInt64) (msg : MessageFormat)
  | remove (msgId : UInt64)
  deriving DecidableEq, Repr

def apply (s : BstImpl) : Call → BstImpl
  | .add msg => s.add msg
  | .insert msgId msg => s.insert msgId msg
  | .remove msgId => s.remove msgId

def run (calls : List Call) : BstImpl := calls.foldl apply {}

@[simp] theorem run_snoc (calls : List Call) (c : Call) :
    run (calls ++ [c]) = (run calls).apply c := by
  simp only [run, List.foldl_append, List.foldl_cons, List.foldl_nil]

theorem Valid.apply {s : BstImpl} (h : s.Valid) (c : Call) : (s.apply c).Valid := by
  cases c with
  | add msg => exact h.insert _ msg
  | insert k msg => exact h.insert k msg
  | remove k => exact h.remove k

theorem valid_run (calls : List Call) : (run calls).Valid := by
  induction calls using List.reverseRecOn with
  | nil => exact valid_empty
  | append_singleton calls c ih =>
    rw [run_snoc]
    exact ih.apply c

/-! ## The store refines a set of keys -/

def Call.onKeys (ks : Finset UInt64) : Call → Finset UInt64
  | .add msg => ks ∪ {msg.messageId}
  | .insert msgId _ => ks ∪ {msgId}
  | .remove msgId => ks \ {msgId}

/-- The abstract run: a finite set of 64-bit keys. -/
def keySet (calls : List Call) : Finset UInt64 := calls.foldl Call.onKeys ∅

theorem Valid.keys_apply {s : BstImpl} (h : s.Valid) (c : Call) :
    keys (s.apply c).contents = c.onKeys (keys s.contents) := by
  cases c with
  | add msg =>
    show keys (s.insert msg.messageId msg).contents = _
    rw [h.keys_insert]
    rfl
  | insert k msg => exact h.keys_insert k msg
  | remove k => exact h.keys_remove k

theorem keys_run (calls : List Call) : keys (run calls).contents = keySet calls := by
  induction calls using List.reverseRecOn with
  | nil => rfl
  | append_singleton calls c ih =>
    rw [run_snoc, (valid_run calls).keys_apply, ih, keySet, keySet, List.foldl_append]
    rfl

theorem Valid.beginIndex_eq_min' {s : BstImpl} (h : s.Valid) (hne : (keys s.contents).Nonempty) :
    s.beginIndex = .ok ((keys s.contents).min' hne) := by
  obtain ⟨q, hq⟩ := hne
  obtain ⟨w, hw⟩ := mem_keys.mp hq
  obtain ⟨⟨k, v⟩, es, he⟩ := List.exists_cons_of_ne_nil (List.ne_nil_of_mem hw)
  have hsorted : Sorted ((k, v) :: es) := he ▸ h.sorted
  have hmem : k ∈ keys s.contents := mem_keys.mpr ⟨v, he ▸ List.mem_cons_self⟩
  -- in a sorted list the first key is the least
  rw [beginIndex_of_cons he]
  exact congrArg _ (le_antisymm
    (Finset.le_min' _ _ _ fun c hc => hsorted.head_le (he ▸ hc)) (Finset.min'_le _ _ hmem))

/-- After any sequence of calls the store answers every key query as the abstract set does; every
prefix of a run is such a sequence. -/
theorem run_refines_set (calls : List Call) (hmemory : (keySet calls).card < 2 ^ 64) :
    (∀ q, (run calls).contains q = true ↔ q ∈ keySet calls) ∧
      (run calls).size.toNat = (keySet calls).card ∧
      ((run calls).empty = true ↔ keySet calls = ∅) ∧
      ∀ hne : (keySet calls).Nonempty,
        (run calls).beginIndex = .ok ((keySet calls).min' hne) := by
  have hvalid := valid_run calls
  have hkeys := keys_run calls
  have hlen : (run calls).contents.length = (keySet calls).card := by
    rw [← hkeys, hvalid.sorted.card_keys]
  have hsize : (run calls).size.toNat = (keySet calls).card := by
    rw [hvalid.toNat_size (hlen ▸ hmemory), hlen]
  refine ⟨fun q => ?_, hsize, ?_, fun hne => ?_⟩
  · rw [hvalid.contains_iff, hkeys]
  · rw [empty, decide_eq_true_iff, ← UInt64.toNat_inj, hsize]
    exact Finset.card_eq_zero
  · simp only [← hkeys] at hne ⊢
    exact hvalid.beginIndex_eq_min' hne

/-- A store of three keys, one of them inserted twice, after the middle one is removed. -/
theorem run_refines_set_two_of_three :
    let calls : List Call := [.insert 7 {}, .insert 5 {}, .add ⟨0, 0, 9, 1⟩, .insert 5 ⟨0, 0, 1, 1⟩,
      .remove 7]
    (keySet calls).card < 2 ^ 64 ∧ keySet calls = {5, 9} ∧ (run calls).size.toNat = 2 := by
  intro calls
  have hmemory : (keySet calls).card < 2 ^ 64 := by decide
  have hsize := (run_refines_set calls hmemory).2.1
  exact ⟨hmemory, by decide, hsize.trans (by decide)⟩

end BstImpl

end MessageTransmitter
