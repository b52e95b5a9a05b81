import AvroSchema.Outcome
import AvroSchema.Verification.Transcript

/-!
# Reports

A report says what comes of the verification of a schema: the outcome, the names that the schema
defines, the diagnostics about it, and its trace. The options say whether there is a trace, and
whether the verification fails fast, which means that it stops at the first failure.
-/

namespace AvroSchema

/-- How a schema is verified. -/
structure Options where
  trace : Bool := false
  failFast : Bool := true
deriving DecidableEq

/-- The mode of the trace that the options ask for. -/
def Options.traceMode (options : Options) : TraceMode :=
  if options.trace then .names else .off

/-- What comes of the verification of a schema. -/
structure Report where
  outcome : Outcome Diagnostic Unit
  names : NameTable
  diagnostics : List Diagnostic
  trace : List TraceEntry

/-- The report on what happened during a verification. It succeeds, or fails for the first reason
that it reports. -/
def Report.ofEvents (mode : TraceMode) (events : List Event) : Report where
  outcome := .ofFailure? () ((events.filterMap Event.failure?).head?.map Failure.diagnostic)
  names := NameTable.empty.extend events
  diagnostics := (events.filterMap Event.failure?).map Failure.diagnostic
  trace := mode.select (events.filterMap Event.entry?)

end AvroSchema
