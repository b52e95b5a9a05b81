import AvroSchema.Proofs.Visits
import AvroSchema.Session

/-!
# Runs of one verifier

A run handles events until it is broken off, so that what is verified is described by all that
happens along the walk, or by what happens through the first failure (`Schema.verify_eq`). A
verifier is used for many schemas, and the log it reports to holds whatever was reported before.
Neither has a bearing on a run: `run_eq` says what a run leaves behind in terms of the report on the
schema alone. The main statement, `run_independent`, compares a run in the middle of a session with
the run of a fresh verifier that reports to an empty log.
-/

namespace AvroSchema

/-- A mode lets two traces through as it does each of them. -/
theorem TraceMode.select_append (mode : TraceMode) (first second : List TraceEntry) :
    mode.select (first ++ second) = mode.select first ++ mode.select second := by
  cases mode <;> rfl

namespace Verifier

/-- A job after some events have been handled. -/
def Job.handled (job : Job) (events : List Event) : Job :=
  { job with
    names := job.names.extend events
    first := job.first.or ((events.filterMap Event.failure?).head?.map Failure.diagnostic)
    log := job.log ++ (events.filterMap Event.failure?).map Failure.diagnostic
    trace := job.trace ++ job.options.traceMode.select (events.filterMap Event.entry?) }

/-- Appending two lists to an array in turn is appending both at once. -/
theorem array_append_append {α : Type} (items : Array α) (first second : List α) :
    items ++ (first ++ second) = items ++ first ++ second := by
  apply Array.toList_inj.1
  simp [List.append_assoc]

/-- A mode lets nothing through if there is nothing. -/
@[simp] theorem select_nil (mode : TraceMode) : mode.select [] = [] := by
  cases mode <;> rfl

/-- Without events, a job is what it was. -/
theorem Job.handled_nil (job : Job) : job.handled [] = job := by
  simp [handled, NameTable.extend]

/-- Handling two lists of events in turn is handling both at once. -/
theorem Job.handled_append (job : Job) (first second : List Event) :
    job.handled (first ++ second) = (job.handled first).handled second := by
  have hkept : job.first.or (((first ++ second).filterMap Event.failure?).head?.map
      Failure.diagnostic) = (job.handled first).first.or
        ((second.filterMap Event.failure?).head?.map Failure.diagnostic) := by
    simp only [handled, List.filterMap_append, List.head?_append]
    cases job.first <;> cases (first.filterMap Event.failure?).head? <;> rfl
  rw [handled, hkept, NameTable.extend_append]
  simp only [handled, List.filterMap_append, List.map_append, TraceMode.select_append,
    array_append_append]

/-- An event is handled, and breaks the run off if it is a failure and the verifier fails fast. -/
theorem handle_eq (event : Event) (job : Job) :
    handle event job =
      if job.options.failFast && event.isFailure then .error () (job.handled [event])
      else .ok () (job.handled [event]) := by
  cases event with
  | traced entry =>
      have hhandled : job.handled [.traced entry] =
          { job with trace := job.trace ++ job.options.traceMode.select [entry] } := by
        simp [Job.handled, List.filterMap_cons, Event.failure?, Event.entry?, Event.definition?,
          NameTable.extend]
      rw [Event.is_failure_traced, Bool.and_false, hhandled]
      rfl
  | failed failure =>
      have hhandled : job.handled [.failed failure] =
          { job with
            first := job.first.or (some failure.diagnostic)
            log := job.log.push failure.diagnostic } := by
        simp [Job.handled, List.filterMap_cons, Event.failure?, Event.entry?, Event.definition?,
          NameTable.extend]
      rw [Event.is_failure_failed, Bool.and_true, hhandled]
      rfl
  | defined fullname type =>
      have hhandled : job.handled [.defined fullname type] =
          { job with names := job.names.extend [.defined fullname type] } := by
        simp [Job.handled, List.filterMap_cons, Event.failure?, Event.entry?]
      rw [Event.is_failure_defined, Bool.and_false, hhandled]
      rfl

/-- Events are handled in turn, and a run that fails fast is broken off at the first failure. -/
theorem handle_all_eq (events : List Event) (job : Job) :
    forM events handle job =
      if job.options.failFast && events.any Event.isFailure then
        .error () (job.handled (throughFirstFailure events))
      else .ok () (job.handled events) := by
  induction events generalizing job with
  | nil => simp [Job.handled_nil, pure, EStateM.pure]
  | cons event rest ih =>
      have hsameOptions : (job.handled [event]).options = job.options := rfl
      have hlater := job.handled_append [event]
      rw [List.forM_cons]
      simp only [bind, EStateM.bind, handle_eq]
      cases event with
      | traced entry => simp [ih, hsameOptions, ← hlater, throughFirstFailure]
      | failed failure =>
          cases hfailFast : job.options.failFast with
          | true => simp [throughFirstFailure]
          | false => simp [ih, hsameOptions, hfailFast, ← hlater]
      | defined fullname type => simp [ih, hsameOptions, ← hlater, throughFirstFailure]

/-- A job after a node has been entered at a stop. -/
def Job.enter (job : Job) (stop : Stop) : Job :=
  { job with entered := enteredAt job.entered stop }

/-- At a stop, a node may be entered, and the events there are handled. -/
theorem attend_eq (stop : Stop) (job : Job) :
    attend stop job =
      if job.options.failFast && (stop.events job.names).any Event.isFailure then
        .error () ((job.enter stop).handled (throughFirstFailure (stop.events job.names)))
      else .ok () ((job.enter stop).handled (stop.events job.names)) :=
  handle_all_eq (stop.events job.names) (job.enter stop)

/-- Attending stops in turn handles their transcript and enters the nodes at the stops, unless the
run fails fast and is broken off at the first failure of the transcript. -/
theorem attend_all_eq (stops : List Stop) (job : Job) :
    ∃ entered, (forM stops attend job =
      if job.options.failFast && (transcript job.names stops).any Event.isFailure then
        .error () ({ job with entered }.handled (throughFirstFailure (transcript job.names stops)))
      else .ok () ({ job with entered }.handled (transcript job.names stops))) ∧
      (job.options.failFast = false → entered = stops.foldl enteredAt job.entered) := by
  induction stops generalizing job with
  | nil =>
      refine ⟨job.entered, ?_, fun _ => rfl⟩
      simp [transcript, Job.handled_nil, pure, EStateM.pure]
  | cons stop rest ih =>
      let next := (job.enter stop).handled (stop.events job.names)
      obtain ⟨entered, hlater, hnoted⟩ := ih next
      have hhandledNext : ∀ events, { next with entered }.handled events =
          { job with entered }.handled (stop.events job.names ++ events) := by
        intro events
        rw [Job.handled_append]
        rfl
      have hsameOptions : next.options = job.options := rfl
      have hnextNames : next.names = job.names.extend (stop.events job.names) := rfl
      rw [hhandledNext, hhandledNext, hsameOptions, hnextNames] at hlater
      rw [List.forM_cons]
      simp only [bind, EStateM.bind, attend_eq, transcript, List.any_append]
      cases hfailed : (stop.events job.names).any Event.isFailure with
      | true =>
          cases hfailFast : job.options.failFast with
          | true =>
              refine ⟨enteredAt job.entered stop, ?_, fun h => Bool.noConfusion h⟩
              simp [through_first_failure_append_of_failed hfailed, Job.enter]
          | false =>
              refine ⟨entered, ?_, fun _ => hnoted hfailFast⟩
              simpa [hfailFast] using hlater
      | false =>
          refine ⟨entered, ?_, hnoted⟩
          simpa [through_first_failure_append_of_not_failed hfailed] using hlater

end Verifier

/-- The nodes entered at the stops of a tour are those that the tour says it has entered. -/
theorem Tour.Follows.foldl_entered_at {enclosing : String} {entered : List NodeId} {tour : Tour}
    (hfollows : Follows enclosing entered tour) :
    tour.stops.foldl Verifier.enteredAt entered = tour.entered := by
  induction hfollows with
  | rest | turnBack => rfl
  | @pass enclosing entered tour stop hsilent _ ih =>
      have hkept : Verifier.enteredAt entered stop = entered := by
        cases stop with
        | arrival => cases hsilent
        | returned | field | symbol | nested | branch | gap => rfl
      rw [entered_after, ← ih]
      exact congrArg (tour.stops.foldl Verifier.enteredAt) hkept
  | @goThrough enclosing entered tour type hunnamed _ ih =>
      have hkept : Verifier.enteredAt entered (.arrival type enclosing) = entered := by
        simp [Verifier.enteredAt, Schema.isNamed, hunnamed]
      rw [entered_after, ← ih]
      exact congrArg (tour.stops.foldl Verifier.enteredAt) hkept
  | @enter enclosing entered tour type definition hdefinition _ _ ih =>
      have hadded : Verifier.enteredAt entered (.arrival type enclosing) = type.node :: entered :=
        if_pos (Schema.is_named_of_definition hdefinition)
      rw [entered_after, ← ih]
      exact congrArg (tour.stops.foldl Verifier.enteredAt) hadded
  | @andThen enclosing entered tour next _ _ ih ihNext =>
      show (tour.stops ++ (next tour.entered).stops).foldl Verifier.enteredAt entered = _
      rw [List.foldl_append, ih, ihNext, entered_and_then]

namespace Verifier

/-- A job that begins without names and without entered nodes handles the events through the first
failure if the verifier fails fast. Otherwise it handles all events and enters all named nodes. -/
theorem Job.exists_work_eq_handled {job : Job} (root : Schema) (hblank : job.names = .empty)
    (hunentered : job.entered = []) :
    ∃ entered, job.work root = { job with entered }.handled
        (if job.options.failFast then throughFirstFailure root.events else root.events) ∧
      (job.options.failFast = false → entered = (root.tour "" []).entered) := by
  obtain ⟨entered, hattended, hnoted⟩ := attend_all_eq root.itinerary job
  refine ⟨entered, ?_, ?_⟩
  · have hall : transcript job.names root.itinerary = root.events := by
      rw [hblank]
      rfl
    rw [hall] at hattended
    rw [work, hunentered, Schema.walk_eq_perform_tour]
    simp only [Tour.perform, bind, EStateM.bind]
    rw [show forM (root.tour "" []).stops attend job = _ from hattended]
    cases hfailFast : job.options.failFast with
    | false => rfl
    | true =>
        cases hfailed : root.events.any Event.isFailure with
        | true => rfl
        | false =>
            have hwhole := through_first_failure_append_of_not_failed hfailed []
            simp only [List.append_nil, throughFirstFailure] at hwhole
            simp [hwhole, pure, EStateM.pure]
  · intro hfailFast
    rw [hnoted hfailFast, hunentered]
    exact (root.follows_tour "" []).foldl_entered_at

/-- A run leaves behind a report on what happens through the first failure, or on all that happens,
after whatever the log held before. -/
theorem exists_run_eq_of_events (verifier : Verifier) (log : List Diagnostic) (root : Schema) :
    let report := Report.ofEvents verifier.options.traceMode
      (if verifier.options.failFast then throughFirstFailure root.events else root.events)
    ∃ entered, verifier.run log root =
      { outcome := report.outcome
        verifier :=
          { options := verifier.options
            names := report.names
            entered
            first := report.diagnostics.head? }
        log := log ++ report.diagnostics
        trace := report.trace } ∧
      (verifier.options.failFast = false → entered = (root.tour "" []).entered) := by
  obtain ⟨entered, hworked, hnoted⟩ :=
    @Job.exists_work_eq_handled (verifier.begin log) root rfl rfl
  have hsameOptions : (verifier.begin log).options = verifier.options := rfl
  rw [hsameOptions] at hworked hnoted
  refine ⟨entered, ?_, hnoted⟩
  rw [run, hworked]
  simp [begin, Job.result, Job.handled, Report.ofEvents]

end Verifier

namespace Schema

/-- The report is on what happens through the first failure, or on all that happens. -/
theorem verify_eq (options : Options) (root : Schema) :
    root.verify options = .ofEvents options.traceMode
      (if options.failFast then throughFirstFailure root.events else root.events) := by
  obtain ⟨entered, hran, -⟩ := (Verifier.fresh options).exists_run_eq_of_events [] root
  rw [verify, hran]
  rfl

/-- The outcome of a verification is a failure for the first reason that it reports, if any. -/
theorem outcome_verify_eq_head (options : Options) (root : Schema) :
    (root.verify options).outcome = .ofFailure? () (root.verify options).diagnostics.head? := by
  rw [verify_eq, Report.ofEvents, List.head?_map]

end Schema

namespace Verifier

/-- A run leaves behind what the verification of the schema says, after whatever the log held
before. If the verifier does not fail fast, it has entered the nodes that the walk has. -/
theorem run_eq (verifier : Verifier) (log : List Diagnostic) (root : Schema) :
    ∃ entered, verifier.run log root =
      { outcome := (root.verify verifier.options).outcome
        verifier :=
          { options := verifier.options
            names := (root.verify verifier.options).names
            entered
            first := (root.verify verifier.options).diagnostics.head? }
        log := log ++ (root.verify verifier.options).diagnostics
        trace := (root.verify verifier.options).trace } ∧
      (verifier.options.failFast = false → entered = (root.tour "" []).entered) := by
  rw [Schema.verify_eq]
  exact verifier.exists_run_eq_of_events log root

/-- The first of some diagnostics is the one that a failure is about. -/
theorem outcome_of_failure_head (diagnostics : List Diagnostic) :
    (Outcome.ofFailure? () diagnostics.head? = .ok () ↔ diagnostics = []) ∧
      ∀ diagnostic, Outcome.ofFailure? () diagnostics.head? = .error diagnostic ↔
        ∃ later, diagnostics = diagnostic :: later := by
  cases diagnostics with
  | nil => simp [Outcome.ofFailure?]
  | cons first later => simp [Outcome.ofFailure?]

/-- A run does not depend on what was done before. Whatever earlier runs have left in a verifier and
whatever a log holds, the next run has the outcome, the names and the trace that a fresh verifier
with the same options has for the schema, and appends to the log what that one reports to an empty
log. It is a success if it appends nothing, and otherwise fails for the first diagnostic that it
appends. The same holds in a session after any commands. -/
theorem run_independent :
    (∀ (verifier : Verifier) (log : List Diagnostic) (root : Schema),
      let result := verifier.run log root
      let alone := (fresh verifier.options).run [] root
      result.outcome = alone.outcome ∧
        result.verifier.options = verifier.options ∧
        result.verifier.names = alone.verifier.names ∧
        result.trace = alone.trace ∧
        result.log = log ++ alone.log ∧
        (result.outcome = .ok () ↔ result.log = log) ∧
        ∀ diagnostic, result.outcome = .error diagnostic ↔
          ∃ later, result.log = log ++ diagnostic :: later) ∧
    ∀ (history : List Command) (root : Schema),
      let session := (Session.start.run history).2
      let alone := (fresh session.verifier.options).run [] root
      (session.step (.verify root)).1 = .verified alone.outcome (session.log ++ alone.log)
          alone.verifier.names (TraceTarget.stream.output alone.trace) ∧
        (session.step (.verify root)).2.log = session.log ++ alone.log ∧
        (session.step (.verify root)).2.verifier.names = alone.verifier.names := by
  have hindependent : ∀ (verifier : Verifier) (log : List Diagnostic) (root : Schema),
      (verifier.run log root).outcome = ((fresh verifier.options).run [] root).outcome ∧
        (verifier.run log root).verifier.names =
          ((fresh verifier.options).run [] root).verifier.names ∧
        (verifier.run log root).trace = ((fresh verifier.options).run [] root).trace ∧
        (verifier.run log root).log = log ++ ((fresh verifier.options).run [] root).log := by
    intro verifier log root
    obtain ⟨entered, hused, -⟩ := run_eq verifier log root
    rw [hused]
    exact ⟨rfl, rfl, rfl, rfl⟩
  constructor
  · intro verifier log root
    obtain ⟨hsameOutcome, hsameNames, hsameTrace, happended⟩ := hindependent verifier log root
    obtain ⟨entered, hran, -⟩ := run_eq verifier log root
    obtain ⟨haccepted, hrefused⟩ :=
      outcome_of_failure_head (root.verify verifier.options).diagnostics
    rw [← root.outcome_verify_eq_head verifier.options] at haccepted hrefused
    refine ⟨hsameOutcome, ?_, hsameNames, hsameTrace, happended, ?_, ?_⟩
    · rw [hran]
    · rw [hran, List.append_right_eq_self]
      exact haccepted
    · intro diagnostic
      simp only [hran, List.append_cancel_left_eq]
      exact hrefused diagnostic
  · intro history root session alone
    obtain ⟨hsameOutcome, hsameNames, hsameTrace, happended⟩ :=
      hindependent session.verifier session.log root
    refine ⟨?_, happended, hsameNames⟩
    show Answer.verified _ _ _ _ = _
    rw [hsameOutcome, hsameNames, hsameTrace, happended]

end Verifier

end AvroSchema
