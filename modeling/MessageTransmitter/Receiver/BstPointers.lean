import MessageTransmitter.Library.Transition
import MessageTransmitter.Receiver.NodePointers
import MessageTransmitter.Receiver.Representation

/-!
# The store on pointers

`udp_receiver/bst_impl.cpp` on the nodes of `NodePtr`.  A call comes with the address that `new`
would return during it.  The store does what `BstImpl` says, no call of a run dereferences null or a
deleted node, and no node is ever lost.
-/

open LinkedTree SortedAssoc Transition

namespace MessageTransmitter

structure PtrBst where
  memory : NodeMemory := fun _ => none
  mRoot : Ptr := null
  mSize : UInt64 := 0

namespace PtrBst

def contains (fuel : ℕ) (s : PtrBst) (msgId : UInt64) : PtrResult Bool := do
  let node ← NodePtr.search fuel s.memory s.mRoot msgId
  .ok (decide (node ≠ null))

def insert (fuel : ℕ) (s : PtrBst) (temp : Ptr) (msgId : UInt64) (msg : MessageFormat) :
    PtrResult PtrBst := do
  let found ← s.contains fuel msgId
  if !found then
    if s.mRoot ≠ null then do
      -- the returned pointer is dropped: `m_root` stays
      let r ← NodePtr.insert fuel s.memory temp s.mRoot msgId msg
      .ok { s with memory := r.1, mSize := s.mSize + 1 }
    else
      let r := NodePtr.makeNode s.memory temp msgId msg
      .ok { memory := r.1, mRoot := r.2, mSize := s.mSize + 1 }
  else .ok s

def add (fuel : ℕ) (s : PtrBst) (temp : Ptr) (msg : MessageFormat) : PtrResult PtrBst :=
  s.insert fuel temp msg.messageId msg

/-- The node that the reference returned by `at(msg_id)` points into. -/
def atNode (fuel : ℕ) (s : PtrBst) (msgId : UInt64) : PtrResult Ptr := do
  let found ← s.contains fuel msgId
  if !found then .error (.thrown "out-of-range")
  else do
    let node ← NodePtr.search fuel s.memory s.mRoot msgId
    let _ ← s.memory.read node
    .ok node

/-- `at(msg_id)`, read through the reference -/
def atId (fuel : ℕ) (s : PtrBst) (msgId : UInt64) : PtrResult MessageFormat := do
  let node ← s.atNode fuel msgId
  let cell ← s.memory.read node
  .ok cell.data.2

def beginIndex (fuel : ℕ) (s : PtrBst) : PtrResult UInt64 := do
  let node ← NodePtr.minValueNode fuel s.memory s.mRoot
  let cell ← s.memory.read node
  .ok cell.data.1

def beginValue (fuel : ℕ) (s : PtrBst) : PtrResult MessageFormat := do
  let index ← s.beginIndex fuel
  s.atId fuel index

def remove (fuel : ℕ) (s : PtrBst) (msgId : UInt64) : PtrResult PtrBst := do
  let found ← s.contains fuel msgId
  if found then do
    let r ← NodePtr.deleteNode fuel s.memory s.mRoot msgId
    .ok { memory := r.1, mRoot := r.2, mSize := s.mSize - 1 }
  else .ok s

def toString (fuel : ℕ) (s : PtrBst) : PtrResult String := NodePtr.toString fuel s.memory s.mRoot

def size (s : PtrBst) : UInt64 := s.mSize

def empty (s : PtrBst) : Bool := s.size = 0

/-! ## Runs of calls -/

/-- A call and the address that `new` returns if the call makes a node. -/
abbrev PtrCall := BstImpl.Call × Ptr

def step (fuel : ℕ) (s : PtrBst) : PtrCall → PtrResult PtrBst
  | (.add msg, temp) => s.add fuel temp msg
  | (.insert msgId msg, temp) => s.insert fuel temp msgId msg
  | (.remove msgId, _) => s.remove fuel msgId

/-- The allocator offers an address that is not in use. -/
def Offered (s : PtrBst) (i : PtrCall) : Prop := s.memory.Fresh i.2

instance instDecidableOffered (s : PtrBst) (i : PtrCall) : Decidable (s.Offered i) :=
  inferInstanceAs (Decidable (s.memory.Fresh i.2))

/-- The runs of the store whose recursions go no deeper than `fuel`. -/
def Runs (fuel : ℕ) : PtrBst → List PtrCall → PtrBst → Prop :=
  Run (Guarded Offered (ofExcept (step fuel)))

end PtrBst

/-! ## Calls on trees with addresses -/

namespace NodeLayout

def apply (t : NodeLayout) : PtrBst.PtrCall → NodeLayout
  | (.add msg, temp) => insert t temp msg.messageId msg
  | (.insert msgId msg, temp) => insert t temp msgId msg
  | (.remove msgId, _) => deleteNode t msgId

theorem height_apply_le (t : NodeLayout) (i : PtrBst.PtrCall) : (t.apply i).height ≤ t.height + 1 := by
  obtain ⟨c, temp⟩ := i
  cases c with
  | add msg => exact height_insert_le t temp msg.messageId msg
  | insert msgId msg => exact height_insert_le t temp msgId msg
  | remove msgId => exact Nat.le_succ_of_le (height_deleteNode_le t msgId)

theorem insert_of_found {t : NodeLayout} {key : UInt64} (h : (search t key).isNil = false)
    (temp : Ptr) (msg : MessageFormat) : insert t temp key msg = t := by
  induction t with
  | nil => cases h
  | cell p e l r ihl ihr =>
    rw [search] at h
    rw [insert]
    by_cases hlt : key < e.1
    · rw [if_neg (ne_of_gt hlt), if_neg (lt_asymm hlt)] at h
      rw [if_pos hlt, ihl h]
    · rw [if_neg hlt]
      by_cases hgt : key > e.1
      · rw [if_neg (ne_of_lt hgt), if_pos hgt] at h
        rw [if_pos hgt, ihr h]
      · rw [if_neg hgt]

theorem deleteNode_of_not_found {t : NodeLayout} {key : UInt64} (h : (search t key).isNil = true) :
    deleteNode t key = t := by
  induction t with
  | nil => rfl
  | cell p e l r ihl ihr =>
    rw [search] at h
    rw [deleteNode]
    by_cases hlt : key < e.1
    · rw [if_neg (ne_of_gt hlt), if_neg (lt_asymm hlt)] at h
      rw [if_pos hlt, ihl h]
    · rw [if_neg hlt]
      by_cases hgt : key > e.1
      · rw [if_neg (ne_of_lt hgt), if_pos hgt] at h
        rw [if_pos hgt, ihr h]
      · rw [if_pos (le_antisymm (le_of_not_gt hlt) (le_of_not_gt hgt))] at h
        cases h

theorem insert_root {t : NodeLayout} (h : t.isNil = false) (temp : Ptr) (key : UInt64)
    (msg : MessageFormat) : (insert t temp key msg).root = t.root := by
  cases t with
  | nil => cases h
  | cell p e l r =>
    rw [insert]
    split
    · rfl
    · split
      · rfl
      · rfl

end NodeLayout

namespace PtrBst

/-- The store holds the tree `t`, which is the one of `spec` with addresses. -/
structure Holds (s : PtrBst) (t : NodeLayout) (spec : BstImpl) : Prop where
  owns : Owns s.memory t
  root : s.mRoot = t.root
  tree : NodeLayout.toNode t = spec.mRoot
  size : s.mSize = spec.mSize

/-- There are no other nodes. -/
structure Represents (s : PtrBst) (t : NodeLayout) (spec : BstImpl) : Prop extends
    Holds s t spec where
  noLeak : ∀ q, s.memory q ≠ none → q ∈ t.ptrs

theorem holds_nil (m : NodeMemory) : Holds { memory := m } .nil {} := ⟨owns_nil m, rfl, rfl, rfl⟩

theorem represents_start : Represents {} .nil {} := ⟨holds_nil _, fun _ h => absurd rfl h⟩

/-- The ways a call fails, as the code meets them. -/
def Represents.ofFault : Fault → LinkedTree.Fault String
  | .nullDereference => .nullDereference
  | .outOfRange => .thrown "out-of-range"

namespace Holds

open Represents (ofFault)

variable {s s' : PtrBst} {t : NodeLayout} {spec : BstImpl} {fuel : ℕ}

theorem contains_layout (h : Holds s t spec) (key : UInt64) :
    spec.contains key = !(NodeLayout.search t key).isNil := by
  rw [BstImpl.contains, ← h.tree, ← NodeLayout.toNode_search, NodeLayout.toNode_isNull]

theorem search_eq (h : Holds s t spec) (hfuel : t.height < fuel) (key : UInt64) :
    NodePtr.search fuel s.memory s.mRoot key = .ok (NodeLayout.search t key).root := by
  rw [h.root]
  exact NodePtr.search_eq h.owns key hfuel

theorem owns_search (h : Holds s t spec) (key : UInt64) :
    Owns s.memory (NodeLayout.search t key) := by
  have howns := h.owns
  clear h
  induction t with
  | nil => exact howns
  | cell p e l r ihl ihr =>
    obtain ⟨-, -, hl, hr, -⟩ := owns_cell.mp howns
    rw [NodeLayout.search]
    split
    · exact howns
    · split
      · exact ihr hr
      · exact ihl hl

theorem contains_eq (h : Holds s t spec) (hfuel : t.height < fuel) (key : UInt64) :
    s.contains fuel key = .ok (spec.contains key) := by
  have hroot := (h.owns_search key).root_eq_null
  rw [PtrBst.contains, h.search_eq hfuel, ok_bind, h.contains_layout]
  congr 1
  cases hnil : (NodeLayout.search t key).isNil with
  | true =>
    rw [hroot.mpr hnil]
    rfl
  | false => exact decide_eq_true fun hnull => by simp [hroot.mp hnull] at hnil

/-- A key that the store contains is under the node that `at` refers to. -/
theorem exists_cell (h : Holds s t spec) {key : UInt64} (hc : spec.contains key = true) :
    ∃ p v l r, NodeLayout.search t key = .cell p (key, v) l r := by
  rw [h.contains_layout, Bool.not_eq_true'] at hc
  clear h
  induction t with
  | nil => cases hc
  | cell p e l r ihl ihr =>
    rw [NodeLayout.search] at hc ⊢
    split
    · rename_i heq
      exact ⟨p, e.2, l, r, by rw [← heq]⟩
    · rename_i hne
      rw [if_neg hne] at hc
      split
      · rename_i hlt
        rw [if_pos hlt] at hc
        exact ihr hc
      · rename_i hlt
        rw [if_neg hlt] at hc
        exact ihl hc

theorem atNode_eq (h : Holds s t spec) (hfuel : t.height < fuel) {key : UInt64}
    (hc : spec.contains key = true) :
    s.atNode fuel key = .ok (NodeLayout.search t key).root := by
  obtain ⟨p, v, l, r, hsearch⟩ := h.exists_cell hc
  obtain ⟨hpnull, hp, -⟩ := owns_cell.mp (hsearch ▸ h.owns_search key)
  rw [atNode, h.contains_eq hfuel, hc, ok_bind, Bool.not_true, if_neg Bool.false_ne_true,
    h.search_eq hfuel, hsearch, Layout.root_cell, ok_bind, Memory.read_eq hpnull hp, ok_bind]

theorem atId_eq (h : Holds s t spec) (hfuel : t.height < fuel) (key : UInt64) :
    s.atId fuel key = (spec.atId key).mapError ofFault := by
  cases hc : spec.contains key with
  | false =>
    rw [PtrBst.atId, atNode, h.contains_eq hfuel, BstImpl.atId, hc]
    rfl
  | true =>
    obtain ⟨p, v, l, r, hsearch⟩ := h.exists_cell hc
    obtain ⟨hpnull, hp, -⟩ := owns_cell.mp (hsearch ▸ h.owns_search key)
    have hnode : spec.mRoot.search key =
        .node key v (NodeLayout.toNode l) (NodeLayout.toNode r) := by
      rw [← h.tree, ← NodeLayout.toNode_search, hsearch]
      rfl
    rw [PtrBst.atId, h.atNode_eq hfuel hc, hsearch, ok_bind, Layout.root_cell,
      Memory.read_eq hpnull hp, ok_bind, BstImpl.atId, hc, hnode]
    rfl

theorem beginIndex_eq (h : Holds s t spec) (hfuel : t.height < fuel) :
    s.beginIndex fuel = spec.beginIndex.mapError ofFault := by
  rw [PtrBst.beginIndex, h.root, NodePtr.minValueNode_eq h.owns hfuel, ok_bind,
    BstImpl.beginIndex, ← h.tree, ← NodeLayout.toNode_minValueNode]
  cases hnil : t.isNil with
  | true =>
    rw [Layout.eq_nil_of_isNil hnil]
    rfl
  | false =>
    obtain ⟨p, e, r, es, hmin, hcells⟩ := NodeLayout.exists_minValueNode hnil
    have hstores := NodeLayout.stores_minValueNode h.owns.stores
    rw [hmin] at hstores ⊢
    have hp : p ∈ t.ptrs := by
      rw [Layout.ptrs, hcells]
      exact List.mem_cons_self
    have hpnull : p ≠ null := fun heq => h.owns.nonnull (heq ▸ hp)
    rw [Layout.root_cell, Memory.read_eq hpnull hstores.1]
    rfl

theorem beginValue_eq (h : Holds s t spec) (hfuel : t.height < fuel) :
    s.beginValue fuel = spec.beginValue.mapError ofFault := by
  rw [PtrBst.beginValue, h.beginIndex_eq hfuel, BstImpl.beginValue]
  cases spec.beginIndex with
  | error e => rfl
  | ok index => exact h.atId_eq hfuel index

theorem empty_eq (h : Holds s t spec) : s.empty = spec.empty := by
  rw [PtrBst.empty, PtrBst.size, h.size]
  rfl

theorem toString_eq (h : Holds s t spec) (hfuel : t.height < fuel) :
    s.toString fuel = .ok spec.toString := by
  rw [PtrBst.toString, NodePtr.toString, h.root, NodePtr.appendToString_eq h.owns _ hfuel, h.tree]
  rfl

/-- The nodes of the tree hang off `m_root`, one for each entry. -/
theorem live (h : Holds s t spec) :
    null ∉ t.ptrs.toFinset ∧ (∀ q ∈ t.ptrs.toFinset, s.memory.Reaches s.mRoot q) ∧
      t.ptrs.toFinset.card = spec.contents.length := by
  refine ⟨fun hnull => h.owns.nonnull (List.mem_toFinset.mp hnull), fun q hq => ?_, ?_⟩
  · rw [h.root]
    exact h.owns.stores.reaches (List.mem_toFinset.mp hq)
  · rw [List.toFinset_card_of_nodup h.owns.nodup, Layout.ptrs, List.length_map, BstImpl.contents,
      ← h.tree, NodeLayout.entries_toNode, List.length_map]

/-! ### Steps -/

theorem insert (h : Holds s t spec) (hfuel : t.height < fuel) {temp : Ptr}
    (htemp : s.memory.Fresh temp) (key : UInt64) (msg : MessageFormat) :
    ∃ s', s.insert fuel temp key msg = .ok s' ∧
      Holds s' (NodeLayout.insert t temp key msg) (spec.insert key msg) ∧
      Rewrites s.memory s'.memory t (NodeLayout.insert t temp key msg) := by
  have hcontains := h.contains_layout key
  rw [PtrBst.insert, h.contains_eq hfuel, ok_bind, BstImpl.insert]
  cases hc : spec.contains key with
  | true =>
    rw [hc, eq_comm, Bool.not_eq_true'] at hcontains
    rw [NodeLayout.insert_of_found hcontains]
    exact ⟨s, rfl, h, .refl h.owns⟩
  | false =>
    rw [Bool.not_false, if_pos rfl, if_pos rfl]
    cases hnil : t.isNil with
    | true =>
      obtain rfl := Layout.eq_nil_of_isNil hnil
      have hnull : spec.mRoot = .nullptr := h.tree.symm
      have hrew := Rewrites.alloc htemp (key, msg)
      rw [h.root, hnull]
      refine ⟨_, rfl, ⟨hrew.owns, rfl, rfl, ?_⟩, hrew⟩
      exact congrArg (· + 1) h.size
    | false =>
      have hroot : s.mRoot ≠ null := by
        rw [h.root]
        exact fun heq => by simp [h.owns.root_eq_null.mp heq] at hnil
      have hnull : spec.mRoot.isNull = false := by
        rw [← h.tree, NodeLayout.toNode_isNull, hnil]
      obtain ⟨m', hrun, hrew⟩ := NodePtr.insert_eq h.owns htemp key msg hfuel
      rw [if_pos hroot, h.root, hrun, ok_bind, hnull]
      refine ⟨_, rfl, ⟨hrew.owns, ?_, ?_, congrArg (· + 1) h.size⟩, hrew⟩
      · exact (NodeLayout.insert_root hnil temp key msg).symm
      · rw [NodeLayout.toNode_insert, h.tree]
        rfl

theorem remove (h : Holds s t spec) (hfuel : t.height < fuel) (key : UInt64) :
    ∃ s', s.remove fuel key = .ok s' ∧
      Holds s' (NodeLayout.deleteNode t key) (spec.remove key) ∧
      Rewrites s.memory s'.memory t (NodeLayout.deleteNode t key) := by
  have hcontains := h.contains_layout key
  rw [PtrBst.remove, h.contains_eq hfuel, ok_bind, BstImpl.remove]
  cases hc : spec.contains key with
  | false =>
    rw [hc, eq_comm, Bool.not_eq_false'] at hcontains
    rw [NodeLayout.deleteNode_of_not_found hcontains]
    exact ⟨s, rfl, h, .refl h.owns⟩
  | true =>
    obtain ⟨m', hrun, hrew⟩ := NodePtr.deleteNode_eq h.owns key hfuel
    rw [if_pos rfl, if_pos rfl, h.root, hrun, ok_bind]
    refine ⟨_, rfl, ⟨hrew.owns, rfl, ?_, congrArg (· - 1) h.size⟩, hrew⟩
    rw [NodeLayout.toNode_deleteNode, h.tree]

end Holds

namespace Represents

variable {s : PtrBst} {t : NodeLayout} {spec : BstImpl} {fuel : ℕ}

theorem step (h : Represents s t spec) (hfuel : t.height < fuel) {i : PtrCall}
    (hoffered : s.Offered i) :
    ∃ s', s.step fuel i = .ok s' ∧ Represents s' (t.apply i) (spec.apply i.1) ∧
      Rewrites s.memory s'.memory t (t.apply i) := by
  have hcall : ∃ s', s.step fuel i = .ok s' ∧ Holds s' (t.apply i) (spec.apply i.1) ∧
      Rewrites s.memory s'.memory t (t.apply i) := by
    obtain ⟨c, temp⟩ := i
    cases c with
    | add msg => exact h.insert hfuel hoffered msg.messageId msg
    | insert msgId msg => exact h.insert hfuel hoffered msgId msg
    | remove msgId => exact h.remove hfuel msgId
  obtain ⟨s', hs', hholds, hrew⟩ := hcall
  exact ⟨s', hs', ⟨hholds, hrew.noLeak h.noLeak⟩, hrew⟩

end Represents

/-! ## Whole runs -/

/-- What a run has built so far is the tree of the same calls on `BstImpl`, with addresses; it is no
deeper than the run is long. -/
theorem represents_run {fuel : ℕ} {is : List PtrCall} {s : PtrBst} (hrun : Runs fuel {} is s)
    (hfuel : is.length ≤ fuel) :
    ∃ t, Represents s t (BstImpl.run (is.map Prod.fst)) ∧ t.height ≤ is.length := by
  induction hrun with
  | nil => exact ⟨.nil, represents_start, Nat.le_refl 0⟩
  | @snoc is u s i _ hlast ih =>
    rw [List.length_append, List.length_singleton] at hfuel ⊢
    obtain ⟨t, ht, hheight⟩ := ih (Nat.le_of_succ_le hfuel)
    have hdeep : t.height < fuel := by omega
    obtain ⟨s', hs', hrep, -⟩ := ht.step hdeep hlast.1
    rw [hlast.2] at hs'
    obtain rfl := Except.ok.inj hs'
    rw [List.map_append, List.map_singleton, BstImpl.run_snoc]
    exact ⟨_, hrep, (t.height_apply_le i).trans (Nat.succ_le_succ hheight)⟩

theorem runs_deterministic {fuel : ℕ} {is : List PtrCall} {s s' u : PtrBst} (h : Runs fuel s is s')
    (hu : Runs fuel s is u) : s' = u := by
  rw [Runs, ← ofExcept_guard] at h hu
  exact h.deterministic hu

theorem exists_runs (fuel : ℕ) (is : List PtrCall) {β : Type} {f : PtrBst → β} {b : β}
    (h : (is.foldlM (guard Offered (step fuel)) {}).map f = .ok b) :
    ∃ s, Runs fuel {} is s ∧ f s = b := by
  rw [Runs, ← ofExcept_guard]
  exact exists_run_of_foldlM _ _ _ f h

/-- With enough stack no call faults on memory, whatever addresses the allocator hands out, and
every query answers as the tree values do. -/
theorem memory_safe {fuel : ℕ} {is : List PtrCall} {s : PtrBst} (hrun : Runs fuel {} is s)
    (hfuel : is.length < fuel) :
    let spec := BstImpl.run (is.map Prod.fst)
    (∀ i, s.Offered i → ∃ s', s.step fuel i = .ok s') ∧
      s.size = spec.size ∧ s.empty = spec.empty ∧
      (∀ k, s.contains fuel k = .ok (spec.contains k) ∧
        s.atId fuel k = (spec.atId k).mapError Represents.ofFault) ∧
      s.beginIndex fuel = spec.beginIndex.mapError Represents.ofFault ∧
      s.beginValue fuel = spec.beginValue.mapError Represents.ofFault ∧
      s.toString fuel = .ok spec.toString := by
  intro spec
  obtain ⟨t, ht, hheight⟩ := represents_run hrun (Nat.le_of_lt hfuel)
  have hdeep : t.height < fuel := by omega
  refine ⟨fun i hi => ?_, ht.size, ht.empty_eq,
    fun k => ⟨ht.contains_eq hdeep k, ht.atId_eq hdeep k⟩, ht.beginIndex_eq hdeep,
    ht.beginValue_eq hdeep, ht.toString_eq hdeep⟩
  obtain ⟨s', hs', -⟩ := ht.step hdeep hi
  exact ⟨s', hs'⟩

/-- The root of a five-node tree is removed, and its key comes back at the address that this freed. -/
theorem memory_safe_root_of_five :
    let is : List PtrCall := [(.insert 5 {}, 11), (.insert 2 {}, 12), (.insert 8 {}, 13),
      (.insert 9 {}, 14), (.add ⟨0, 0, 6, 1⟩, 16), (.remove 5, 17), (.insert 5 ⟨0, 0, 1, 1⟩, 16)]
    ∃ s, Runs 9 {} is s ∧ s.mRoot = 11 ∧ s.size = 5 ∧ s.beginIndex 9 = .ok 2 ∧
      s.atId 9 5 = .ok ⟨0, 0, 1, 1⟩ ∧ s.atId 9 6 = .ok {} := by
  intro is
  obtain ⟨s, hrun, hroot⟩ := exists_runs 9 is (f := fun s => s.mRoot) (b := 11)
    (by decide +kernel)
  obtain ⟨-, hsize, -, hqueries, hbegin, -⟩ := memory_safe hrun (by decide)
  refine ⟨s, hrun, hroot, hsize.trans (by decide +kernel), hbegin.trans (by decide +kernel),
    (hqueries 5).2.trans (by decide +kernel), (hqueries 6).2.trans (by decide +kernel)⟩

/-- The nodes in use are exactly those that hang off `m_root`, one for each key. -/
theorem no_leak {fuel : ℕ} {is : List PtrCall} {s : PtrBst} (hrun : Runs fuel {} is s)
    (hfuel : is.length < fuel) :
    ∃ live : Finset Ptr, (∀ q, q ∈ live ↔ s.memory q ≠ none) ∧ null ∉ live ∧
      (∀ q ∈ live, s.memory.Reaches s.mRoot q) ∧
      live.card = (BstImpl.keySet (is.map Prod.fst)).card := by
  obtain ⟨t, ht, -⟩ := represents_run hrun (Nat.le_of_lt hfuel)
  have hvalid := BstImpl.valid_run (is.map Prod.fst)
  obtain ⟨hnull, hreaches, hcard⟩ := ht.live
  refine ⟨t.ptrs.toFinset, fun q => ?_, hnull, hreaches, ?_⟩
  · rw [List.mem_toFinset]
    exact ⟨fun hq => ht.owns.stores.ne_none hq, ht.noLeak q⟩
  · rw [hcard, ← BstImpl.keys_run, hvalid.sorted.card_keys]

theorem no_leak_two_of_three :
    let is : List PtrCall := [(.insert 5 {}, 11), (.insert 2 {}, 12), (.insert 8 {}, 13),
      (.remove 5, 14)]
    ∃ s, Runs 9 {} is s ∧ ∃ live : Finset Ptr, (∀ q, q ∈ live ↔ s.memory q ≠ none) ∧
      live.card = 2 := by
  intro is
  obtain ⟨s, hrun, -⟩ := exists_runs 9 is (f := fun s => s.mRoot) (b := 11)
    (by decide +kernel)
  obtain ⟨live, hlive, -, -, hcard⟩ := no_leak hrun (by decide)
  exact ⟨s, hrun, live, hlive, hcard.trans (by decide)⟩

end PtrBst

end MessageTransmitter
