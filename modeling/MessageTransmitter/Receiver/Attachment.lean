import MessageTransmitter.Receiver.Container

/-!
# Messages and their keys

A message is attached to its key when `at(k)` returns what was passed to the call that last turned
`k` from absent to present.  Insertions keep that, and so does a deletion, except when the deleted
node has two children: `deleteNode` moves the successor's key into the node but leaves the deleted
message there, so the successor's key now names a message it was never given.
-/

open SortedAssoc

namespace MessageTransmitter

namespace BstImpl

def Call.message? : Call → Option MessageFormat
  | .add msg => some msg
  | .insert _ msg => some msg
  | .remove _ => none

def fills (s : BstImpl) (k : UInt64) (c : Call) : Bool := !s.contains k && (s.apply c).contains k

/-- The message passed to the call that last turned `k` from absent to present. -/
def lastFill (k : UInt64) (calls : List Call) : Option MessageFormat :=
  (calls.foldl (fun (s, found) c => (s.apply c, if s.fills k c then c.message? else found))
    (({} : BstImpl), none)).2

/-- Every contained key returns the message that last filled it. -/
def Attached (calls : List Call) : Prop :=
  ∀ k, (run calls).contains k = true →
    ∃ msg, lastFill k calls = some msg ∧ (run calls).atId k = .ok msg

/-- No `remove` of the run relocates a key to a foreign message. -/
def NoRelocation (calls : List Call) : Prop :=
  ∀ pre j, pre ++ [.remove j] <+: calls → (run pre).mRoot.relocates j = false

theorem lastFill_snoc (k : UInt64) (calls : List Call) (c : Call) :
    lastFill k (calls ++ [c]) =
      if (run calls).fills k c then c.message? else lastFill k calls := by
  have hfst : ∀ (cs : List Call) (p : BstImpl × Option MessageFormat),
      (cs.foldl (fun (s, found) c => (s.apply c, if s.fills k c then c.message? else found)) p).1 =
        cs.foldl apply p.1 := fun cs => by
    induction cs with
    | nil => intro p; rfl
    | cons c cs ih => intro p; exact ih _
  rw [lastFill, List.foldl_append, List.foldl_cons, List.foldl_nil]
  simp only [hfst]
  rfl

theorem attached_iff_lookup (calls : List Call) :
    Attached calls ↔
      ∀ k msg, (run calls).contents.lookup k = some msg → lastFill k calls = some msg := by
  have hvalid := valid_run calls
  apply Iff.intro
  · intro h k msg hk
    have hc : (run calls).contains k = true :=
      hvalid.contains_iff.mpr (lookup_isSome.mp (hk ▸ rfl))
    obtain ⟨m, hm, hat⟩ := h k hc
    rw [hvalid.atId_eq, hk] at hat
    exact hm.trans (congrArg some (Except.ok.inj hat).symm)
  · intro h k hc
    obtain ⟨msg, hk⟩ := Option.isSome_iff_exists.mp (lookup_isSome.mpr (hvalid.contains_iff.mp hc))
    exact ⟨msg, h k msg hk, by rw [hvalid.atId_eq, hk]; rfl⟩

/-! ## One call -/

theorem Attached.insert {calls : List Call} (h : Attached calls) {k : UInt64}
    {msg : MessageFormat} {c : Call} (hc : ∀ s : BstImpl, s.apply c = s.insert k msg)
    (hmsg : c.message? = some msg) : Attached (calls ++ [c]) := by
  have hvalid := valid_run calls
  rw [attached_iff_lookup] at h ⊢
  intro q m hq
  rw [run_snoc, hc, hvalid.contents_insert, hvalid.sorted.lookup_insertNew] at hq
  -- an insertion fills its own key, if that was absent, and no other
  have hfills : (run calls).fills q c = (!(run calls).contains q && decide (q = k)) := by
    rw [fills, hc, hvalid.contains_eq_isSome, (hvalid.insert k msg).contains_eq_isSome,
      hvalid.contents_insert, hvalid.sorted.lookup_insertNew]
    by_cases hqk : q = k
    · simp [hqk]
    · cases (run calls).contents.lookup q <;> simp [hqk]
  rw [lastFill_snoc, hfills, hvalid.contains_eq_isSome, hmsg]
  by_cases hqk : q = k
  · subst hqk
    cases hlookup : (run calls).contents.lookup q with
    | none => simpa [hlookup] using hq
    | some w => simpa [hlookup] using (h q w hlookup).trans (by simpa [hlookup] using hq)
  · rw [if_neg hqk] at hq
    simpa [hqk] using h q m hq

theorem Attached.remove {calls : List Call} (h : Attached calls) {j : UInt64}
    (hkeep : (run calls).mRoot.relocates j = false) : Attached (calls ++ [.remove j]) := by
  have hvalid := valid_run calls
  rw [attached_iff_lookup] at h ⊢
  intro q m hq
  rw [run_snoc, apply, hvalid.contents_remove hkeep, hvalid.sorted.lookup_erase] at hq
  split at hq
  · cases hq
  · -- `remove` turns no key present, so the last filling call stays the last one
    have hfills : (run calls).fills q (.remove j) = false := by
      rw [fills, hvalid.contains_eq_isSome, hq]
      rfl
    rw [lastFill_snoc, hfills]
    exact h q m hq

/-- After a relocating deletion some remaining key has changed its message. -/
theorem Valid.exists_changed {s : BstImpl} (h : s.Valid) {j : UInt64}
    (hreloc : s.mRoot.relocates j = true) :
    ∃ k v w, k ≠ j ∧ w ≠ v ∧ s.contents.lookup k = some w ∧
      (s.remove j).contents.lookup k = some v := by
  obtain ⟨l, r, v, w, hne⟩ := Node.entries_deleteNode_of_relocates h.ordered hreloc
  obtain ⟨u, hu, he, hdel⟩ := hne
  have hcontents : s.contents = l ++ (j, v) :: (w, u) :: r := he
  have hc : s.contains j = true :=
    h.contains_iff.mpr (mem_keys.mpr ⟨v, by rw [hcontents]; simp⟩)
  have hremove : (s.remove j).contents = l ++ (w, v) :: r := by
    rw [BstImpl.remove, hc]
    exact hdel
  have hlt : j < w := by
    obtain ⟨-, -, -, hr⟩ := sorted_pivot.mp (hcontents ▸ h.sorted)
    exact hr (w, u) List.mem_cons_self
  refine ⟨w, v, u, ne_of_gt hlt, hu, ?_, ?_⟩
  · rw [h.sorted.lookup_eq_some, hcontents]
    simp
  · rw [(h.remove j).sorted.lookup_eq_some, hremove]
    simp

theorem Attached.not_of_relocates {calls : List Call} (h : Attached calls) {j : UInt64}
    (hreloc : (run calls).mRoot.relocates j = true) : ¬ Attached (calls ++ [.remove j]) := by
  have hvalid := valid_run calls
  obtain ⟨k, v, w, -, hne, hbefore, hafter⟩ := hvalid.exists_changed hreloc
  rw [attached_iff_lookup] at h ⊢
  intro h'
  have hfills : (run calls).fills k (.remove j) = false := by
    rw [fills, hvalid.contains_eq_isSome, hbefore]
    rfl
  -- `k` was never filled again, so `v` would be the message it had before
  have hlast := h' k v (by rw [run_snoc]; exact hafter)
  rw [lastFill_snoc, hfills, if_neg Bool.false_ne_true, h k w hbefore] at hlast
  exact hne (Option.some.inj hlast)

/-- `remove(j)` leaves what every other contained key returns as it is exactly when it relocates
nothing. -/
theorem Valid.remove_frame_iff {s : BstImpl} (h : s.Valid) (j : UInt64) :
    (∀ k, k ≠ j → s.contains k = true → (s.remove j).atId k = s.atId k) ↔
      s.mRoot.relocates j = false := by
  apply Iff.intro
  · intro hframe
    rw [← Bool.not_eq_true]
    intro hreloc
    obtain ⟨k, v, w, hk, hne, hbefore, hafter⟩ := h.exists_changed hreloc
    have hc : s.contains k = true := by rw [h.contains_eq_isSome, hbefore]; rfl
    have heq := hframe k hk hc
    rw [(h.remove j).atId_eq, h.atId_eq, hbefore, hafter] at heq
    exact hne (Except.ok.inj heq).symm
  · intro hkeep k hk _
    rw [(h.remove j).atId_eq, h.atId_eq, h.contents_remove hkeep, h.sorted.lookup_erase,
      if_neg hk]

/-! ## Whole runs -/

theorem attached_of_noRelocation {calls : List Call} (h : NoRelocation calls) : Attached calls := by
  induction calls using List.reverseRecOn with
  | nil => intro k hk; cases hk
  | append_singleton calls c ih =>
    have hcalls : Attached calls :=
      ih fun pre j hpre => h pre j (hpre.trans (List.prefix_append _ _))
    cases c with
    | add msg => exact hcalls.insert (fun _ => rfl) rfl
    | insert k msg => exact hcalls.insert (fun _ => rfl) rfl
    | remove j => exact hcalls.remove (h calls j (List.prefix_refl _))

/-- A run keeps every message attached, at every moment, exactly when none of its deletions
relocates. -/
theorem forall_attached_iff (calls : List Call) :
    (∀ pre, pre <+: calls → Attached pre) ↔ NoRelocation calls := by
  apply Iff.intro
  · intro h pre j hpre
    rw [← Bool.not_eq_true]
    intro hreloc
    have hattached : Attached pre := h pre ((List.prefix_append _ _).trans hpre)
    exact hattached.not_of_relocates hreloc (h _ hpre)
  · intro h pre hpre
    exact attached_of_noRelocation fun p j hp => h p j (hp.trans hpre)

end BstImpl

def Container.Attached (calls : List BstImpl.Call) : Prop :=
  ∀ k, (Container.run calls).contains k = true →
    ∃ msg, BstImpl.lastFill k calls = some msg ∧ (Container.run calls).atId k = .ok msg

theorem Container.attached_iff (calls : List BstImpl.Call) :
    Container.Attached calls ↔ BstImpl.Attached calls := by
  simp only [Container.Attached, BstImpl.Attached, Container.contains, Container.atId,
    Container.mPimpl_run]

/-- The messages of a store, or of a container, stay attached to their keys through a whole run
exactly when no `remove` of the run meets a node with two children whose in-order successor carries
another message; and exactly those removals leave all other keys' messages alone. -/
theorem messages_attached_iff (calls : List BstImpl.Call) :
    ((∀ pre, pre <+: calls → BstImpl.Attached pre) ↔ BstImpl.NoRelocation calls) ∧
      ((∀ pre, pre <+: calls → Container.Attached pre) ↔ BstImpl.NoRelocation calls) ∧
      ∀ j, (∀ k, k ≠ j → (BstImpl.run calls).contains k = true →
          ((BstImpl.run calls).remove j).atId k = (BstImpl.run calls).atId k) ↔
        (BstImpl.run calls).mRoot.relocates j = false := by
  simp only [Container.attached_iff]
  exact ⟨BstImpl.forall_attached_iff calls, BstImpl.forall_attached_iff calls,
    (BstImpl.valid_run calls).remove_frame_iff⟩

/-- Removing 5 above its children 3 and 8 leaves 8 with the message of 5. -/
theorem messages_attached_broken :
    let calls : List BstImpl.Call := [.add (makeMessageWithId 5), .add (makeMessageWithId 3),
      .add (makeMessageWithId 8), .remove 5]
    BstImpl.lastFill 8 calls = some (makeMessageWithId 8) ∧
      (BstImpl.run calls).atId 8 = .ok (makeMessageWithId 5) ∧ ¬ BstImpl.Attached calls := by
  refine ⟨by decide, by rfl, fun h => ?_⟩
  obtain ⟨msg, hlast, hat⟩ := h 8 (by decide)
  have hmsg : msg = makeMessageWithId 8 := Option.some.inj (hlast.symm.trans (by decide))
  rw [hmsg] at hat
  cases hat

end MessageTransmitter
