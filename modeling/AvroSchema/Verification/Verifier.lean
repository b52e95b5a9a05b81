import AvroSchema.Schema.Walk
import AvroSchema.Verification.Report

/-!
# Verifiers

A verifier can run on any number of schemas, one after the other. It keeps the names, the entered
nodes and the first failure of its last run, which may have been broken off, until the next run
forgets them. While it runs, it writes its trace and reports its failures as it meets them. Failures
are reported to a log that others report to as well. `Schema.verify` is a schema's verification by a
verifier that has not run before and has a log of its own.
-/

namespace AvroSchema

/-- A verifier with what its last run has left in it. -/
structure Verifier where
  options : Options
  names : NameTable
  entered : List NodeId
  first : Option Diagnostic

/-- A verifier during a run, the log it reports to, and the trace that the run has written. -/
structure Verifier.Job extends Verifier where
  log : Array Diagnostic
  trace : Array TraceEntry

/-- What comes of a run: its outcome, the verifier after it, the log with what the run has reported,
and the trace of the run. -/
structure Verifier.Result where
  outcome : Outcome Diagnostic Unit
  verifier : Verifier
  log : List Diagnostic
  trace : List TraceEntry

/-- Working on a job, which can be broken off. -/
abbrev Verifier.Working := EStateM Unit Verifier.Job

namespace Verifier

/-- A verifier that has not run yet. -/
def fresh (options : Options) : Verifier :=
  ⟨options, .empty, [], none⟩

/-- Begin a run: the last one is forgotten, and the log stays as it is. -/
def begin (verifier : Verifier) (log : List Diagnostic) : Job where
  options := verifier.options
  names := .empty
  entered := []
  first := none
  log := log.toArray
  trace := #[]

/-- Report a diagnostic, and keep it if it is the first one of the run. A verifier that fails fast
breaks the run off. -/
def fail (diagnostic : Diagnostic) : Working Unit := fun job =>
  let reported :=
    { job with first := job.first.or (some diagnostic), log := job.log.push diagnostic }
  if job.options.failFast then .error () reported else .ok () reported

/-- Do what is to be done about an event: write a line of trace, report a failure, or define a
name. -/
def handle : Event → Working Unit
  | .traced entry => modify fun job =>
      { job with trace := job.trace ++ job.options.traceMode.select [entry] }
  | .failed failure => fail failure.diagnostic
  | .defined fullname type => modify fun job =>
      { job with names := job.names.extend [.defined fullname type] }

/-- The named nodes that have been entered after a stop. -/
def enteredAt (entered : List NodeId) : Stop → List NodeId
  | .arrival type _ => if type.isNamed then type.node :: entered else entered
  | _ => entered

/-- Note which node is entered at a stop, and handle the events there. -/
def attend (stop : Stop) : Working Unit := do
  modify fun job => { job with entered := enteredAt job.entered stop }
  let names := (← get).names
  (stop.events names).forM handle

/-- Work through a schema, until the walk is over or broken off. -/
def Job.work (root : Schema) (job : Job) : Job :=
  match root.walk attend "" job.entered job with
  | .ok _ final | .error _ final => final

/-- What a job amounts to when it is done. It has failed for the first reason that was kept. -/
def Job.result (job : Job) : Result where
  outcome := .ofFailure? () job.first
  verifier := job.toVerifier
  log := job.log.toList
  trace := job.trace.toList

/-- Run on a schema, reporting to a log. -/
def run (verifier : Verifier) (log : List Diagnostic) (root : Schema) : Result :=
  ((verifier.begin log).work root).result

/-- What a run says about a schema: its outcome, the names that it leaves in the verifier, all that
stands in the log, and its trace. -/
def Result.report (result : Result) : Report :=
  ⟨result.outcome, result.verifier.names, result.log, result.trace⟩

end Verifier

namespace Schema

/-- The verification of a schema: the report on the run of a fresh verifier with an empty log. -/
def verify (options : Options) (root : Schema) : Report :=
  ((Verifier.fresh options).run [] root).report

/-- The verification of a schema for its outcome alone: it stops at the first failure whatever the
options say. -/
def check (options : Options) (root : Schema) : Report :=
  root.verify { options with failFast := true }

end Schema

end AvroSchema
