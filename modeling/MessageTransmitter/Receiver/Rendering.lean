import MessageTransmitter.Library.Codes
import MessageTransmitter.Receiver.BstImpl

/-!
# The text of the store

`bst_impl::toString()` writes a line for every entry, in order.  Every number in a line is closed by
a character that is no digit, so the text determines the entries: it shows what the store holds, and
nothing of the shape of the tree.
-/

open SortedAssoc Codes

namespace MessageTransmitter

/-- `[k] = msg { size, type, id, data }` and a line break. -/
def renderedLine (k : UInt64) (msg : MessageFormat) : String :=
  "[" ++ toString k.toNat ++ "] = msg \x7b " ++ toString msg.messageSize.toNat ++ ", " ++
    toString msg.messageType.toNat ++ ", " ++ toString msg.messageId.toNat ++ ", " ++
    toString msg.messageData.toNat ++ " \x7d\n"

namespace Node

theorem entryLine_eq (e : UInt64 × MessageFormat) : entryLine e = renderedLine e.1 e.2 := by
  delta entryLine renderedLine MessageFormat.toStringCompact
  simp only [String.append_assoc]
  rfl

def numbers (e : UInt64 × MessageFormat) : ℕ × ℕ × ℕ × ℕ × ℕ :=
  (e.1.toNat, e.2.messageSize.toNat, e.2.messageType.toNat, e.2.messageId.toNat,
    e.2.messageData.toNat)

theorem numbers_injective : Function.Injective numbers := by
  rintro ⟨k, size, type, id, data⟩ ⟨k', size', type', id', data'⟩ h
  simpa [numbers, UInt64.toNat_inj, UInt16.toNat_inj, UInt8.toNat_inj] using h

theorem toList_entryLine (e : UInt64 × MessageFormat) : (entryLine e).toList =
    '[' :: (Nat.toDigits 10 e.1.toNat ++ ']' :: (" = msg \x7b ".toList ++
      (Nat.toDigits 10 e.2.messageSize.toNat ++ ',' :: ([' '] ++
        (Nat.toDigits 10 e.2.messageType.toNat ++ ',' :: ([' '] ++
          (Nat.toDigits 10 e.2.messageId.toNat ++ ',' :: ([' '] ++
            (Nat.toDigits 10 e.2.messageData.toNat ++ ' ' :: ['\x7d', '\n']))))))))) := by
  rw [entryLine_eq]
  delta renderedLine
  simp only [Nat.toString_eq_repr, String.toList_append, Nat.toList_repr, String.reduceToList,
    List.append_assoc, List.cons_append, List.nil_append]

theorem selfDelimiting_entryLine : SelfDelimiting fun e => (entryLine e).toList := by
  have hfields := (((selfDelimiting_decimal (s := ']') rfl " = msg \x7b ".toList).append
    ((selfDelimiting_decimal (s := ',') rfl [' ']).append
      ((selfDelimiting_decimal (s := ',') rfl [' ']).append
        ((selfDelimiting_decimal (s := ',') rfl [' ']).append
          (selfDelimiting_decimal (s := ' ') rfl ['\x7d', '\n']))))).prepend ['[']).comp
    numbers_injective
  simp only [toList_entryLine]
  simpa only [numbers, List.append_assoc, List.cons_append, List.nil_append] using hfields

theorem entryLine_ne_nil (e : UInt64 × MessageFormat) : (entryLine e).toList ≠ [] := by
  rw [toList_entryLine]
  exact List.cons_ne_nil _ _

/-- Nothing is lost between the in-order contents and their text. -/
theorem lines_injective {es fs : List (UInt64 × MessageFormat)}
    (h : es.foldl (fun acc e => acc ++ entryLine e) "" =
      fs.foldl (fun acc e => acc ++ entryLine e) "") : es = fs := by
  have htext : ∀ (es : List (UInt64 × MessageFormat)) (s : String),
      (es.foldl (fun acc e => acc ++ entryLine e) s).toList =
        s.toList ++ es.flatMap fun e => (entryLine e).toList := fun es => by
    induction es with
    | nil => simp
    | cons e es ih => simp [ih]
  have hchars := congrArg String.toList h
  rw [htext, htext] at hchars
  exact selfDelimiting_entryLine.flatMap_injective entryLine_ne_nil
    (List.append_cancel_left hchars)

end Node

namespace BstImpl

/-- After any sequence of calls the text is one line for each contained key, in increasing order and
with the fields of `at`, and two stores have the same text exactly when they contain the same keys
with the same messages. -/
theorem toString_faithful (calls calls' : List Call) :
    (∃ es : List (UInt64 × MessageFormat), (es.map Prod.fst).Pairwise (· < ·) ∧
      (∀ k, k ∈ es.map Prod.fst ↔ (run calls).contains k = true) ∧
      (∀ e ∈ es, (run calls).atId e.1 = .ok e.2) ∧
      (run calls).toString = String.join (es.map fun e => renderedLine e.1 e.2)) ∧
    ((run calls).toString = (run calls').toString ↔ (run calls).SameMapping (run calls')) := by
  have hvalid := valid_run calls
  apply And.intro
  · refine ⟨(run calls).contents, List.pairwise_map.mpr hvalid.sorted, fun k => ?_,
      fun e he => hvalid.atId_ok_iff.mpr he, ?_⟩
    · rw [hvalid.contains_iff, keys, List.mem_toFinset]
    · rw [toString_eq, String.join, List.foldl_map]
      simp only [Node.entryLine_eq]
  · rw [hvalid.sameMapping_iff (valid_run calls'), toString_eq, toString_eq]
    exact ⟨Node.lines_injective, fun h => by rw [h]⟩

end BstImpl

end MessageTransmitter
