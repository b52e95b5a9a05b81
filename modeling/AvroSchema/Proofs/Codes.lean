import AvroSchema.Proofs.Reports

/-!
# Codes and messages

A diagnostic shows its code only by how its message begins. That is enough: the message of a failure
opens with the label of the code it is reported under and with no other label, so that the codes of
the failures of a schema can be counted in its diagnostics (`count_verify`).
-/

namespace AvroSchema

/-- Whether a diagnostic shows a code: its message opens with the label of the code and a colon. -/
def Diagnostic.shows (code : Code) (diagnostic : Diagnostic) : Bool :=
  (code.label ++ ": ").toList.isPrefixOf diagnostic.message.toList

/-- How many diagnostics of a report show a code. -/
def Report.count (report : Report) (code : Code) : Nat :=
  report.diagnostics.countP (Diagnostic.shows code)

/-- What stands before the first separator is the same in a text and in a text that it opens. -/
theorem eq_of_append_cons_prefix {α : Type} {separator : α} {first second rest more : List α}
    (hnotInFirst : separator ∉ first) (hnotInSecond : separator ∉ second)
    (h : first ++ separator :: rest <+: second ++ separator :: more) : first = second := by
  induction first generalizing second with
  | nil =>
      cases second with
      | nil => rfl
      | cons item items =>
          rw [List.nil_append, List.cons_append, List.cons_prefix_cons] at h
          exact absurd (h.1 ▸ List.mem_cons_self) hnotInSecond
  | cons item items ih =>
      cases second with
      | nil =>
          rw [List.nil_append, List.cons_append, List.cons_prefix_cons] at h
          exact absurd (h.1 ▸ List.mem_cons_self) hnotInFirst
      | cons other others =>
          rw [List.cons_append, List.cons_append, List.cons_prefix_cons] at h
          rw [List.mem_cons, not_or] at hnotInFirst hnotInSecond
          rw [h.1, ih hnotInFirst.2 hnotInSecond.2 h.2]

namespace Code

/-- No label contains a colon. -/
theorem colon_not_mem_label (code : Code) : ':' ∉ code.label.toList := by
  cases code <;> decide

/-- Different codes have different labels. -/
theorem label_injective {first second : Code} (h : first.label = second.label) :
    first = second := by
  cases first <;> cases second <;> simp_all [label]

/-- Every code but the unclassified one has a label. -/
theorem label_ne_empty {code : Code} (h : code ≠ .unclassified) : code.label ≠ "" := by
  cases code with
  | unclassified => exact absurd rfl h
  | _ => decide

/-- A label and a colon open a text that consists of a label, a colon and more if and only if both
labels are the same. -/
theorem label_prefix_iff (first second : Code) (more : List Char) :
    (first.label ++ ": ").toList <+: second.label.toList ++ ':' :: ' ' :: more ↔
      second = first := by
  rw [String.toList_append]
  constructor
  · intro h
    have hsame := eq_of_append_cons_prefix first.colon_not_mem_label second.colon_not_mem_label h
    exact (label_injective (String.toList_injective hsame)).symm
  · rintro rfl
    exact ⟨more, by simp⟩

end Code

/-- Every cause for refusing a name has a message. -/
theorem NameError.message_ne_empty (cause : NameError) : cause.message ≠ "" := by
  unfold message
  cases cause with
  | malformed text => simp
  | reserved short => simp

namespace Failure

/-- Every failure is reported under a code with a label. -/
theorem label_code_ne_empty (failure : Failure) : failure.code.label ≠ "" := by
  refine Code.label_ne_empty ?_
  cases failure with
  | names definition cause => cases cause <;> nofun
  | _ => nofun

/-- Every failure has a message. -/
theorem message_ne_empty (failure : Failure) : failure.message ≠ "" := by
  unfold message
  cases failure with
  | names definition cause => exact cause.message_ne_empty
  | _ => simp

/-- The message about a failure is the label of its code, a colon and the failure in words. -/
theorem message_diagnostic (failure : Failure) :
    failure.diagnostic.message = failure.code.label ++ ": " ++ failure.message := by
  rw [diagnostic, Code.error, Code.diagnostic, Code.labelled, if_neg failure.label_code_ne_empty,
    if_neg failure.message_ne_empty]

/-- The diagnostic about a failure shows the code that the failure is reported under, and no
other. -/
theorem shows_diagnostic_iff (failure : Failure) (code : Code) :
    failure.diagnostic.shows code ↔ failure.code = code := by
  have hopening : failure.diagnostic.message.toList =
      failure.code.label.toList ++ ':' :: ' ' :: failure.message.toList := by
    simp [message_diagnostic]
  rw [Diagnostic.shows, List.isPrefixOf_iff_prefix, hopening]
  exact code.label_prefix_iff failure.code failure.message.toList

end Failure

/-- As many diagnostics of a whole verification show a code as failures are reported under it. -/
theorem Schema.count_verify (trace : Bool) (root : Schema) (code : Code) :
    (root.verify ⟨trace, false⟩).count code = (root.failures.map Failure.code).count code := by
  rw [Report.count, diagnostics_verify, List.count_eq_countP]
  simp only [Bool.false_eq_true, if_false, List.countP_map]
  refine List.countP_congr fun failure _ => ?_
  simp only [Function.comp_apply, failure.shows_diagnostic_iff, beq_iff_eq]

end AvroSchema
