import AvroSchema.Proofs.Reports

/-!
# Failing fast

A verifier that fails fast reports less than one that goes through the whole schema, but nothing
else. The main statement is `verify_fail_fast`: it says what the reports on the runs of two fresh
verifiers have in common when the schema is accepted, and what is left out when it is not.
-/

namespace AvroSchema

/-- The trace lines of a verification that is broken off are the first ones of its whole trace. -/
theorem Report.exists_lines_append (mode : TraceMode) (first second : List Event) :
    ∃ omitted, TraceEntry.lines (ofEvents mode first).trace ++ omitted =
      TraceEntry.lines (ofEvents mode (first ++ second)).trace := by
  refine ⟨TraceEntry.lines (ofEvents mode second).trace, ?_⟩
  simp only [ofEvents]
  rw [← TraceEntry.lines_append, ← TraceMode.select_append, ← List.filterMap_append]

/-- The names of a verification that is broken off are among its names on the whole. -/
theorem Report.mem_entries_append (mode : TraceMode) {first : List Event}
    (second : List Event) {entry : String × Schema}
    (h : entry ∈ (ofEvents mode first).names.entries) :
    entry ∈ (ofEvents mode (first ++ second)).names.entries := by
  simp only [ofEvents, NameTable.extend_append]
  exact List.mem_append_left _ h

namespace Schema

/-- Failing fast breaks a verification of the whole schema off, and changes nothing before. -/
theorem exists_verify_eq_append (trace : Bool) (root : Schema) :
    ∃ reported omitted,
      root.verify ⟨trace, true⟩ = .ofEvents (Options.traceMode ⟨trace, true⟩) reported ∧
      root.verify ⟨trace, false⟩ =
        .ofEvents (Options.traceMode ⟨trace, true⟩) (reported ++ omitted) := by
  obtain ⟨omitted, hwhole⟩ := through_first_failure_append root.events
  refine ⟨throughFirstFailure root.events, omitted, ?_, ?_⟩
  · exact verify_eq ⟨trace, true⟩ root
  · rw [hwhole]
    exact verify_eq ⟨trace, false⟩ root

/-- Where nothing is wrong, failing fast makes no difference. -/
theorem verify_eq_of_failures_eq_nil (trace : Bool) {root : Schema} (h : root.failures = []) :
    root.verify ⟨trace, true⟩ = root.verify ⟨trace, false⟩ := by
  rw [verify_of_failures_eq_nil _ root h, verify_of_failures_eq_nil _ root h]
  rfl

/-- Failing fast truncates a verification of the whole schema. Both have the same outcome, which is
also that of a check, whatever the options of the check are. If it is a success, both report the
same names and the same trace, and no diagnostic. If it is a failure, failing fast reports that
failure alone, which is the first one of the whole verification, and its trace and its names are
part of the whole trace and of all names. -/
theorem verify_fail_fast (root : Schema) (trace : Bool) :
    (root.verify ⟨trace, true⟩).outcome = (root.verify ⟨trace, false⟩).outcome ∧
    (∀ options, (root.check options).outcome = (root.verify ⟨trace, false⟩).outcome) ∧
    ((root.verify ⟨trace, false⟩).outcome = .ok () →
      (root.verify ⟨trace, true⟩).diagnostics = [] ∧
      (root.verify ⟨trace, false⟩).diagnostics = [] ∧
      (root.verify ⟨trace, true⟩).names = (root.verify ⟨trace, false⟩).names ∧
      TraceEntry.lines (root.verify ⟨trace, true⟩).trace =
        TraceEntry.lines (root.verify ⟨trace, false⟩).trace) ∧
    ∀ diagnostic, (root.verify ⟨trace, false⟩).outcome = .error diagnostic →
      (root.verify ⟨trace, true⟩).diagnostics = [diagnostic] ∧
      (root.verify ⟨trace, false⟩).diagnostics.head? = some diagnostic ∧
      (∃ omitted, TraceEntry.lines (root.verify ⟨trace, true⟩).trace ++ omitted =
        TraceEntry.lines (root.verify ⟨trace, false⟩).trace) ∧
      ∀ entry ∈ (root.verify ⟨trace, true⟩).names.entries,
        entry ∈ (root.verify ⟨trace, false⟩).names.entries := by
  refine ⟨?_, ?_, ?_, ?_⟩
  · rw [outcome_verify, outcome_verify]
  · intro options
    rw [check, outcome_verify, outcome_verify]
  · intro haccepted
    have hsound := (outcome_verify_eq_ok_iff _ root).1 haccepted
    have hsilent : (root.verify ⟨trace, false⟩).diagnostics = [] := by
      rw [diagnostics_verify, hsound]
      rfl
    rw [verify_eq_of_failures_eq_nil trace hsound]
    exact ⟨hsilent, hsilent, rfl, rfl⟩
  · intro diagnostic hrefused
    obtain ⟨failure, rest, hfound, rfl⟩ := (outcome_verify_eq_error_iff _ root _).1 hrefused
    obtain ⟨reported, omitted, hfast, hall⟩ := exists_verify_eq_append trace root
    refine ⟨?_, ?_, ?_, ?_⟩
    · rw [diagnostics_verify, hfound]
      rfl
    · rw [diagnostics_verify, hfound]
      rfl
    · rw [hfast, hall]
      exact Report.exists_lines_append _ _ _
    · intro entry h
      rw [hfast] at h
      rw [hall]
      exact Report.mem_entries_append _ _ h

/-- A union without its first branch and with a union as its second one. -/
def hollowUnion : Schema :=
  .union 0 [none, some (.union 1 [])]

/-- A fixed without a namespace. -/
def digest : Schema :=
  .fixed 0 (.declare "Digest" "" "" .unknown) 32

/-- Of the two failures of a union, failing fast reports the first. The name of a fixed that is
accepted is reported both ways. -/
theorem verify_fail_fast_hollow_union :
    (hollowUnion.verify ⟨false, true⟩).diagnostics = [Failure.missingBranch.diagnostic] ∧
      (hollowUnion.verify ⟨false, false⟩).diagnostics =
        [Failure.missingBranch.diagnostic, Failure.nestedUnion.diagnostic] ∧
      (digest.verify ⟨true, true⟩).names = (digest.verify ⟨true, false⟩).names := by
  refine ⟨?_, rfl, ?_⟩
  · exact ((verify_fail_fast hollowUnion false).2.2.2 Failure.missingBranch.diagnostic rfl).1
  · exact ((verify_fail_fast digest true).2.2.1 rfl).2.2.1

end Schema

end AvroSchema
