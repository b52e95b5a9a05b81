import AvroSchema.Proofs.Runs

/-!
# What a report says about a schema

The failures of a schema are those of a verification that goes through the whole of it. Whatever the
options are, the outcome depends on the first failure only (`outcome_verify`), and the diagnostics
are about all failures or the first one (`diagnostics_verify`). The trace is about the arrivals of
the walk (`trace_verify`), or some of them (`mem_entries_of_mem_trace`).
-/

namespace AvroSchema

/-- Two traces one after the other are written one after the other. -/
theorem TraceEntry.lines_append (first second : List TraceEntry) :
    lines (first ++ second) = lines first ++ lines second := by
  rw [lines, List.map_append, String.join_append]
  rfl

namespace Schema

/-- All that is wrong with a schema, in the order in which it is found. -/
def failures (root : Schema) : List Failure :=
  root.events.filterMap Event.failure?

variable (options : Options) (root : Schema)

/-- A verification that fails fast reports the first failure, and any other all of them. -/
theorem diagnostics_verify :
    (root.verify options).diagnostics =
      (if options.failFast then root.failures.take 1 else root.failures).map
        Failure.diagnostic := by
  rw [verify_eq, Report.ofEvents]
  split
  · rw [filter_map_failure_through_first_failure, failures]
  · rw [failures]

/-- The outcome of a verification is its first failure, whether it fails fast or not. -/
theorem outcome_verify :
    (root.verify options).outcome =
      .ofFailure? () (root.failures.head?.map Failure.diagnostic) := by
  rw [outcome_verify_eq_head, diagnostics_verify]
  split
  · cases root.failures <;> rfl
  · cases root.failures <;> rfl

/-- A schema is accepted if and only if nothing is wrong with it. -/
theorem outcome_verify_eq_ok_iff :
    (root.verify options).outcome = .ok () ↔ root.failures = [] := by
  rw [outcome_verify]
  cases root.failures with
  | nil => simp [Outcome.ofFailure?]
  | cons failure rest => simp [Outcome.ofFailure?]

/-- A schema with a failure is refused for the first one. -/
theorem outcome_verify_eq_error_iff (diagnostic : Diagnostic) :
    (root.verify options).outcome = .error diagnostic ↔
      ∃ failure rest, root.failures = failure :: rest ∧ failure.diagnostic = diagnostic := by
  rw [outcome_verify]
  cases root.failures with
  | nil => simp [Outcome.ofFailure?]
  | cons failure rest => simp [Outcome.ofFailure?]

/-- The trace of a whole verification is about the arrivals that ask for a fullname. -/
theorem trace_verify (trace : Bool) :
    (root.verify ⟨trace, false⟩).trace = (Options.traceMode ⟨trace, false⟩).select
      ((root.arrivals Definition.innerNamespace).filterMap Arrival.entry?) := by
  rw [verify_eq]
  show (Options.traceMode ⟨trace, false⟩).select (root.events.filterMap Event.entry?) = _
  rw [filter_map_entry_events]

/-- The trace of any verification is about some of these arrivals. -/
theorem mem_entries_of_mem_trace {entry : TraceEntry} (h : entry ∈ (root.verify options).trace) :
    entry ∈ (root.arrivals Definition.innerNamespace).filterMap Arrival.entry? := by
  obtain ⟨omitted, hwhole⟩ := through_first_failure_append root.events
  have hselected : ∀ entries, entry ∈ options.traceMode.select entries → entry ∈ entries := by
    intro entries
    cases options.traceMode with
    | off => exact nofun
    | names => exact id
  rw [← filter_map_entry_events, ← hwhole, List.filterMap_append]
  rw [verify_eq] at h
  split at h
  · exact List.mem_append_left _ (hselected _ h)
  · rw [← hwhole] at h
    exact List.filterMap_append ▸ hselected _ h

/-- If nothing is wrong with a schema, a verification goes through the whole of it. -/
theorem verify_of_failures_eq_nil (h : root.failures = []) :
    root.verify options = .ofEvents options.traceMode root.events := by
  rw [verify_eq, through_first_failure_eq_self h, ite_self]

end Schema

end AvroSchema
