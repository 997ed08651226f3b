import MessageTransmitter.Receiver.Representation

/-!
# Draining the store

The loop by which the receiver's test and `sendViaTcpSocket` empty a store: as long as it is not
empty, read the first index, read the first value and remove the index.  Such a drain goes through
the in-order contents from the front to the end.
-/

open SortedAssoc

namespace MessageTransmitter

namespace BstImpl

/-- `while (!empty()) { i = beginIndex(); v = beginValue(); remove(i); }`, with what it visits and
what it leaves behind; `none` when the loop needs more than `fuel` rounds. -/
def drain : ℕ → BstImpl → Except Fault (Option (List (UInt64 × MessageFormat) × BstImpl))
  | 0, s => if s.empty then .ok (some ([], s)) else .ok none
  | fuel + 1, s =>
      if s.empty then .ok (some ([], s))
      else do
        let i ← s.beginIndex
        let v ← s.beginValue
        let rest ← drain fuel (s.remove i)
        return rest.map fun (visited, t) => ((i, v) :: visited, t)

theorem Valid.eq_empty {s : BstImpl} (h : s.Valid) (hnil : s.contents = []) : s = {} := by
  have hroot : s.mRoot = .nullptr := Node.entries_eq_nil.mp hnil
  have hsize : s.mSize = 0 := by
    rw [h.counted, hnil]
    rfl
  cases s
  exact congrArg₂ _ hroot hsize

theorem drain_empty (fuel : ℕ) : drain fuel {} = .ok (some ([], {})) := by
  cases fuel <;> rfl

theorem Valid.drain_of_cons {s : BstImpl} (h : s.Valid) (hlt : s.contents.length < 2 ^ 64)
    {k : UInt64} {v : MessageFormat} {es : List (UInt64 × MessageFormat)}
    (he : s.contents = (k, v) :: es) (fuel : ℕ) :
    s.drain (fuel + 1) = ((s.remove k).drain fuel).map
      (Option.map fun (visited, t) => ((k, v) :: visited, t)) := by
  have hempty : s.empty = false := h.empty_eq_false hlt (by rw [he]; exact Nat.succ_pos _)
  rw [drain, hempty, beginIndex_of_cons he, h.beginValue_of_cons he]
  rfl

theorem Valid.drain_eq {s : BstImpl} (h : s.Valid) (hlt : s.contents.length < 2 ^ 64) {fuel : ℕ}
    (hfuel : s.contents.length ≤ fuel) : s.drain fuel = .ok (some (s.contents, {})) := by
  induction fuel generalizing s with
  | zero =>
    have hnil : s.contents = [] := List.length_eq_zero_iff.mp (Nat.le_zero.mp hfuel)
    rw [h.eq_empty hnil, drain_empty]
    rfl
  | succ fuel ih =>
    cases he : s.contents with
    | nil =>
      rw [h.eq_empty he, drain_empty]
    | cons e es =>
      rw [he, List.length_cons] at hlt hfuel
      have hafter : (s.remove e.1).contents = es := h.contents_remove_front he
      rw [h.drain_of_cons (by rw [he]; exact hlt) he,
        ih (h.remove e.1) (by rw [hafter]; omega) (by rw [hafter]; omega), hafter]
      rfl

/-- With less fuel the loop is cut off, but does not fault. -/
theorem Valid.drain_eq_none {s : BstImpl} (h : s.Valid) (hlt : s.contents.length < 2 ^ 64)
    {fuel : ℕ} (hfuel : fuel < s.contents.length) : s.drain fuel = .ok none := by
  induction fuel generalizing s with
  | zero =>
    rw [drain, h.empty_eq_false hlt hfuel]
    rfl
  | succ fuel ih =>
    obtain ⟨⟨k, v⟩, es, he⟩ := List.exists_cons_of_ne_nil
      (List.ne_nil_of_length_pos (Nat.zero_lt_of_lt hfuel))
    have hafter : (s.remove k).contents = es := h.contents_remove_front he
    rw [h.drain_of_cons hlt he]
    rw [he, List.length_cons] at hlt hfuel
    rw [ih (h.remove k) (by rw [hafter]; omega) (by rw [hafter]; omega)]
    rfl

/-- After any sequence of calls a drain ends after exactly `size()` rounds with an empty store and
never faults; it visits every contained key once, in increasing order, each with the message that
`at` returned for it. -/
theorem drain_run (calls : List Call) (hmemory : (run calls).mRoot.nodeCount < 2 ^ 64) :
    ∃ visited,
      (∀ fuel, (run calls).size.toNat ≤ fuel →
        (run calls).drain fuel = .ok (some (visited, { mRoot := .nullptr, mSize := 0 }))) ∧
      (∀ fuel, fuel < (run calls).size.toNat → (run calls).drain fuel = .ok none) ∧
      visited.length = (run calls).size.toNat ∧
      (visited.map Prod.fst).Pairwise (· < ·) ∧
      (∀ k, k ∈ visited.map Prod.fst ↔ (run calls).contains k = true) ∧
      ∀ e ∈ visited, (run calls).atId e.1 = .ok e.2 := by
  have hvalid := valid_run calls
  have hlt : (run calls).contents.length < 2 ^ 64 :=
    (run calls).mRoot.nodeCount_eq_length ▸ hmemory
  have hsize : (run calls).size.toNat = (run calls).contents.length := hvalid.toNat_size hlt
  refine ⟨(run calls).contents, fun fuel hfuel => hvalid.drain_eq hlt (hsize ▸ hfuel),
    fun fuel hfuel => hvalid.drain_eq_none hlt (hsize ▸ hfuel), hsize.symm, ?_, ?_, ?_⟩
  · exact List.pairwise_map.mpr hvalid.sorted
  · intro k
    rw [hvalid.contains_iff, keys, List.mem_toFinset]
  · intro e he
    exact hvalid.atId_ok_iff.mpr he

/-- Three entries out of four, after the root with its two children was removed. -/
theorem drain_run_three_of_four :
    let calls : List Call := [.insert 5 ⟨0, 0, 5, 1⟩, .insert 2 ⟨0, 0, 2, 1⟩, .insert 8 ⟨0, 0, 8, 1⟩,
      .insert 6 ⟨0, 0, 6, 1⟩, .remove 5]
    (run calls).size = 3 ∧ (run calls).drain 2 = .ok none ∧
      ∃ visited, (run calls).drain 3 = .ok (some (visited, {})) ∧ visited.length = 3 := by
  intro calls
  have hsize : (run calls).size = 3 := by decide
  obtain ⟨visited, hends, hcut, hlength, -⟩ := drain_run calls (by decide)
  rw [hsize] at hends hcut hlength
  exact ⟨hsize, hcut 2 (by decide), visited, hends 3 (by decide), hlength⟩

end BstImpl

end MessageTransmitter
