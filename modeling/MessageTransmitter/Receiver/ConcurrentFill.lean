import MessageTransmitter.Receiver.Container
import MessageTransmitter.Library.Interleaving

/-!
# Filling a container from several threads

Every `add` and `insert` is atomic under the container's mutex, so threads that only fill a
container produce some interleaving of their calls.  Insertion is first-wins: what the container
answers depends on the schedule only through which message came first under a key.
-/

open SortedAssoc Interleaving

namespace MessageTransmitter

inductive FillCall where
  | add (msg : MessageFormat)
  | insert (msgId : UInt64) (msg : MessageFormat)
  deriving DecidableEq, Repr

namespace FillCall

def toCall : FillCall → BstImpl.Call
  | add msg => .add msg
  | insert msgId msg => .insert msgId msg

def key : FillCall → UInt64
  | add msg => msg.messageId
  | insert msgId _ => msgId

def msg : FillCall → MessageFormat
  | add msg => msg
  | insert _ msg => msg

end FillCall

namespace Container

variable {ι : Type*}

def fill (sched : List (ι × FillCall)) : Container := run (sched.map fun e => e.2.toCall)

/-- The first message that the schedule inserts under `k`. -/
def firstMessage (k : UInt64) (sched : List (ι × FillCall)) : Option MessageFormat :=
  (sched.find? fun e => e.2.key = k).map fun e => e.2.msg

theorem valid_fill (sched : List (ι × FillCall)) : (fill sched).mPimpl.Valid := by
  rw [fill, mPimpl_run]
  exact BstImpl.valid_run _

theorem contents_fill_snoc (sched : List (ι × FillCall)) (e : ι × FillCall) :
    (fill (sched ++ [e])).mPimpl.contents =
      insertNew e.2.key e.2.msg (fill sched).mPimpl.contents := by
  obtain ⟨i, c⟩ := e
  rw [fill, List.map_append, List.map_singleton, run_snoc, mPimpl_apply]
  cases c <;> exact (valid_fill sched).contents_insert _ _

theorem lookup_fill (sched : List (ι × FillCall)) (k : UInt64) :
    (fill sched).mPimpl.contents.lookup k = firstMessage k sched := by
  induction sched using List.reverseRecOn with
  | nil => rfl
  | append_singleton sched e ih =>
    rw [contents_fill_snoc, (valid_fill sched).sorted.lookup_insertNew, ih]
    simp only [firstMessage] at ih ⊢
    rw [List.find?_append]
    -- the last call counts for its own key only, and there only if no earlier one did
    by_cases hk : k = e.2.key
    · subst hk
      rw [if_pos rfl, ih]
      cases sched.find? fun e' => e'.2.key = e.2.key <;> simp
    · rw [if_neg hk]
      cases sched.find? fun e' => e'.2.key = k <;> simp [Ne.symm hk]

theorem keys_fill (sched : List (ι × FillCall)) :
    keys (fill sched).mPimpl.contents = (sched.map fun e => e.2.key).toFinset := by
  ext k
  rw [← lookup_isSome, lookup_fill, firstMessage, Option.isSome_map, List.find?_isSome]
  simp

theorem firstMessage_mem {k : UInt64} {sched : List (ι × FillCall)} {m : MessageFormat}
    (h : firstMessage k sched = some m) : ∃ e ∈ sched, e.2.key = k ∧ e.2.msg = m := by
  obtain ⟨e, he, hm⟩ := Option.map_eq_some_iff.mp h
  exact ⟨e, List.mem_of_find?_eq_some he, by simpa using List.find?_some he, hm⟩

theorem firstMessage_isSome {k : UInt64} {sched : List (ι × FillCall)} :
    (firstMessage k sched).isSome ↔ ∃ e ∈ sched, e.2.key = k := by
  rw [firstMessage, Option.isSome_map, List.find?_isSome]
  simp

/-- Where equal keys come with equal messages, permuting the schedule keeps the first messages. -/
theorem firstMessage_perm {s t : List (ι × FillCall)} (hperm : s.Perm t)
    (hsame : ∀ e ∈ s, ∀ f ∈ s, e.2.key = f.2.key → e.2.msg = f.2.msg) (k : UInt64) :
    firstMessage k s = firstMessage k t := by
  cases hs : firstMessage k s with
  | none =>
    cases ht : firstMessage k t with
    | none => rfl
    | some m =>
      obtain ⟨e, he, hk, -⟩ := firstMessage_mem ht
      have hsome := firstMessage_isSome.mpr ⟨e, hperm.mem_iff.mpr he, hk⟩
      rw [hs] at hsome
      cases hsome
  | some m =>
    obtain ⟨e, he, hke, rfl⟩ := firstMessage_mem hs
    obtain ⟨n, ht⟩ := Option.isSome_iff_exists.mp
      (firstMessage_isSome.mpr ⟨e, hperm.mem_iff.mp he, hke⟩)
    obtain ⟨f, hf, hkf, rfl⟩ := firstMessage_mem ht
    rw [ht, hsame e he f (hperm.mem_iff.mpr hf) (hke.trans hkf.symm)]

theorem contents_fill_perm {s t : List (ι × FillCall)} (hperm : s.Perm t)
    (hsame : ∀ e ∈ s, ∀ f ∈ s, e.2.key = f.2.key → e.2.msg = f.2.msg) :
    (fill s).mPimpl.contents = (fill t).mPimpl.contents :=
  Sorted.ext (valid_fill s).sorted (valid_fill t).sorted fun k => by
    rw [lookup_fill, lookup_fill, firstMessage_perm hperm hsame]

/-- The least key does not depend on the messages under it. -/
theorem beginIndex_congr {c d : Container} (hc : c.mPimpl.Valid) (hd : d.mPimpl.Valid)
    (hkeys : keys c.mPimpl.contents = keys d.mPimpl.contents) : c.beginIndex = d.beginIndex := by
  rw [beginIndex, beginIndex]
  by_cases hne : (keys c.mPimpl.contents).Nonempty
  · have hned : (keys d.mPimpl.contents).Nonempty := hkeys ▸ hne
    rw [hc.beginIndex_eq_min' hne, hd.beginIndex_eq_min' hned]
    simp only [hkeys]
  · have hempty : ∀ {s : BstImpl}, ¬ (keys s.contents).Nonempty → s.contents = [] := fun h =>
      keys_eq_empty_iff.mp (Finset.not_nonempty_iff_eq_empty.mp h)
    rw [BstImpl.beginIndex_eq, BstImpl.beginIndex_eq, hempty hne, hempty (hkeys ▸ hne)]

theorem beginValue_congr {c d : Container} (hc : c.mPimpl.Valid) (hd : d.mPimpl.Valid)
    (h : c.mPimpl.contents = d.mPimpl.contents) : c.beginValue = d.beginValue := by
  have hindex : c.mPimpl.beginIndex = d.mPimpl.beginIndex := beginIndex_congr hc hd (by rw [h])
  have hat : c.mPimpl.atId = d.mPimpl.atId := funext fun k => by rw [hc.atId_eq, hd.atId_eq, h]
  rw [beginValue, beginValue, BstImpl.beginValue, BstImpl.beginValue, hindex, hat]

/-- Whatever the number of threads and whatever their schedule, filling a container leaves each key
with the first message inserted under it, and `contains`, `size` and `beginIndex` answer the same
for every schedule.  If equal keys always come with equal messages, so do `at`, `beginValue` and
`toString`. -/
theorem fill_schedule_independent [DecidableEq ι] (threads : ι → List FillCall)
    (s t : List (ι × FillCall)) (hs : Interleaves threads s) (ht : Interleaves threads t) :
    (∀ k, (fill s).atId k = (firstMessage k s).elim (.error .outOfRange) .ok) ∧
      (∀ k, (fill s).contains k = (fill t).contains k) ∧
      (fill s).size = (fill t).size ∧
      (fill s).beginIndex = (fill t).beginIndex ∧
      ((∀ i j, ∀ c ∈ threads i, ∀ d ∈ threads j, c.key = d.key → c.msg = d.msg) →
        (∀ k, (fill s).atId k = (fill t).atId k) ∧
          (fill s).beginValue = (fill t).beginValue ∧
          (fill s).toString = (fill t).toString) := by
  -- two schedules of the same threads are permutations, and the keys do not depend on the order
  have hperm : s.Perm t := hs.perm ht
  have hkeys : keys (fill s).mPimpl.contents = keys (fill t).mPimpl.contents := by
    rw [keys_fill, keys_fill]
    exact List.toFinset_eq_of_perm _ _ (hperm.map _)
  refine ⟨fun k => ?_, fun k => ?_, ?_, beginIndex_congr (valid_fill s) (valid_fill t) hkeys,
    fun hsame => ?_⟩
  · rw [← lookup_fill]
    exact (valid_fill s).atId_eq k
  · rw [contains, contains, Bool.eq_iff_iff, (valid_fill s).contains_iff,
      (valid_fill t).contains_iff, hkeys]
  · rw [size, size, (valid_fill s).size_eq, (valid_fill t).size_eq, hkeys]
  · have hcontents : (fill s).mPimpl.contents = (fill t).mPimpl.contents :=
      contents_fill_perm hperm fun e he f hf => hsame e.1 f.1 e.2 (hs.mem he) f.2 (hs.mem hf)
    refine ⟨fun k => ?_, beginValue_congr (valid_fill s) (valid_fill t) hcontents, ?_⟩
    · rw [atId, atId, (valid_fill s).atId_eq, (valid_fill t).atId_eq, hcontents]
    · rw [toString, toString, BstImpl.toString_eq, BstImpl.toString_eq, hcontents]

/-- Two threads that insert 1 and 2 build two different trees with one rendering. -/
theorem fill_schedule_independent_two :
    let calls : Bool → List FillCall := fun b => [.add (makeMessageWithId (if b then 1 else 2))]
    let s := [(true, FillCall.add (makeMessageWithId 1)), (false, .add (makeMessageWithId 2))]
    Interleaves calls s ∧ Interleaves calls s.reverse ∧ fill s ≠ fill s.reverse ∧
      (fill s).toString = (fill s.reverse).toString := by
  intro calls s
  have hs : Interleaves calls s := by decide
  have ht : Interleaves calls s.reverse := by decide
  have h := fill_schedule_independent calls s s.reverse hs ht
  exact ⟨hs, ht, by decide, (h.2.2.2.2 (by decide)).2.2⟩

end Container

end MessageTransmitter
