import AvroSchema.Schema.Itinerary
import AvroSchema.Verification.Failure
import AvroSchema.Verification.NameTable
import AvroSchema.Verification.TraceEntry

/-!
# What a verification does along the walk

At each stop of the walk through a schema, the verifier checks the rules that concern the stop. What
comes of it is a list of events: a line of trace, a failure, or the definition of a fullname. Only
the uniqueness of fullnames needs to know more than the stop itself, namely the names defined at the
stops before. `transcript` strings the events of all stops together, and `throughFirstFailure` cuts
a transcript off where a verification that fails fast would stop.
-/

namespace AvroSchema

/-- Something that happens during a verification. -/
inductive Event where
  | traced (entry : TraceEntry)
  | failed (failure : Failure)
  | defined (fullname : String) (type : Schema)

namespace Event

/-- The failure that an event is. -/
def failure? : Event → Option Failure
  | failed failure => some failure
  | _ => none

/-- Whether an event is a failure. -/
def isFailure (event : Event) : Bool :=
  event.failure?.isSome

/-- A failed event is a failure. -/
@[simp] theorem is_failure_failed (failure : Failure) : (failed failure).isFailure = true :=
  rfl

/-- A line of trace is no failure. -/
@[simp] theorem is_failure_traced (entry : TraceEntry) : (traced entry).isFailure = false :=
  rfl

/-- A definition is no failure. -/
@[simp] theorem is_failure_defined (fullname : String) (type : Schema) :
    (defined fullname type).isFailure = false :=
  rfl

/-- The trace entry that an event is. -/
def entry? : Event → Option TraceEntry
  | traced entry => some entry
  | _ => none

/-- The definition that an event is. -/
def definition? : Event → Option (String × Schema)
  | defined fullname type => some (fullname, type)
  | _ => none

end Event

/-- What happens at the first arrival at a named type. A definition with unacceptable names is
reported and no more is done about it. Any other is traced, and reported if it records another
fullname than it resolves to; it defines the fullname it resolves to unless that is taken. -/
def Schema.definitionEvents (names : NameTable) (type : Schema) (definition : Definition)
    (enclosing : String) : List Event :=
  match definition.nameError? with
  | some cause => [.failed (.names definition cause)]
  | none =>
      let resolved := (definition.resolve enclosing).fullname
      .traced (.ofType type enclosing resolved) ::
        ((if definition.fullname = resolved then []
          else [.failed (.fullname definition resolved)]) ++
         (if names.defines resolved then [.failed (.duplicateName definition resolved)]
          else [.defined resolved type]))

/-- What happens when the walk goes into a type. -/
def Schema.arrivalEvents (names : NameTable) (enclosing : String) : Schema → List Event
  | .primitive _ token =>
      if Name.isPrimitive token then [] else [.failed (.unknownPrimitive token)]
  | type@(.record _ definition _) | type@(.enum _ definition _) | type@(.fixed _ definition _) =>
      type.definitionEvents names definition enclosing
  | .array .. | .map .. | .union .. => []

/-- The failure of leaving out a type. -/
def Gap.failure : Gap → Failure
  | .field definition => .missingField definition
  | .element => .missingElement
  | .branch => .missingBranch

/-- What happens at a stop of the walk when the given names are defined. A name that is not simple
is reported for that only, however often it occurs. -/
def Stop.events (names : NameTable) : Stop → List Event
  | .arrival type enclosing => type.arrivalEvents names enclosing
  | .returned .. => []
  | .field definition earlier name =>
      if !Name.isSimple name then [.failed (.malformedField definition name)]
      else if earlier.contains name then [.failed (.duplicateField definition name)]
      else []
  | .symbol definition earlier name =>
      if !Name.isSimple name then [.failed (.malformedSymbol definition name)]
      else if earlier.contains name then [.failed (.duplicateSymbol definition name)]
      else []
  | .nested => [.failed .nestedUnion]
  | .branch earlier key => if earlier.contains key then [.failed (.duplicateBranch key)] else []
  | .gap missing => [.failed missing.failure]

/-- The names defined after some events. -/
def NameTable.extend (names : NameTable) (events : List Event) : NameTable :=
  ⟨names.entries ++ events.filterMap Event.definition?⟩

/-- What happens along a walk when the given names are defined at its start. -/
def transcript (names : NameTable) : List Stop → List Event
  | [] => []
  | stop :: rest =>
      let events := stop.events names
      events ++ transcript (names.extend events) rest

/-- All that happens along the walk through a schema. -/
def Schema.events (root : Schema) : List Event :=
  transcript .empty root.itinerary

/-- The events up to and including the first failure. -/
def throughFirstFailure : List Event → List Event
  | [] => []
  | .failed failure :: _ => [.failed failure]
  | event :: rest => event :: throughFirstFailure rest

/-- Extending a table by two lists of events in turn is extending it by both at once. -/
theorem NameTable.extend_append (names : NameTable) (first second : List Event) :
    names.extend (first ++ second) = (names.extend first).extend second := by
  simp [extend, List.append_assoc]

/-- The second part of a walk starts from the names that the first part defined. -/
theorem transcript_append (names : NameTable) (first second : List Stop) :
    transcript names (first ++ second) =
      transcript names first ++ transcript (names.extend (transcript names first)) second := by
  induction first generalizing names with
  | nil => simp [transcript, NameTable.extend]
  | cons stop rest ih => simp [transcript, ih, NameTable.extend_append]

/-- Stopping at the first failure only leaves events out at the end. -/
theorem through_first_failure_append (events : List Event) :
    ∃ omitted, throughFirstFailure events ++ omitted = events := by
  induction events with
  | nil => exact ⟨[], rfl⟩
  | cons event rest ih =>
      obtain ⟨omitted, h⟩ := ih
      cases event with
      | failed failure => exact ⟨rest, rfl⟩
      | traced entry => exact ⟨omitted, by simp [throughFirstFailure, h]⟩
      | defined fullname type => exact ⟨omitted, by simp [throughFirstFailure, h]⟩

/-- A failure among the first of two lists of events is the one to stop at. -/
theorem through_first_failure_append_of_failed {first : List Event}
    (h : first.any Event.isFailure = true) (second : List Event) :
    throughFirstFailure (first ++ second) = throughFirstFailure first := by
  induction first with
  | nil => simp at h
  | cons event rest ih =>
      cases event with
      | failed failure => rfl
      | traced entry => simp [throughFirstFailure, ih (by simpa using h)]
      | defined fullname type => simp [throughFirstFailure, ih (by simpa using h)]

/-- Events without a failure are not stopped at. -/
theorem through_first_failure_append_of_not_failed {first : List Event}
    (h : first.any Event.isFailure = false) (second : List Event) :
    throughFirstFailure (first ++ second) = first ++ throughFirstFailure second := by
  induction first with
  | nil => rfl
  | cons event rest ih =>
      cases event with
      | failed failure => simp at h
      | traced entry => simp [throughFirstFailure, ih (by simpa using h)]
      | defined fullname type => simp [throughFirstFailure, ih (by simpa using h)]

/-- Stopping at the first failure keeps that failure and no other. -/
theorem filter_map_failure_through_first_failure (events : List Event) :
    (throughFirstFailure events).filterMap Event.failure? =
      (events.filterMap Event.failure?).take 1 := by
  induction events with
  | nil => rfl
  | cons event rest ih =>
      cases event <;> simp [throughFirstFailure, List.filterMap_cons, Event.failure?, ih]

/-- Without a failure there is nothing to stop at. -/
theorem through_first_failure_eq_self {events : List Event}
    (h : events.filterMap Event.failure? = []) : throughFirstFailure events = events := by
  induction events with
  | nil => rfl
  | cons event rest ih => cases event <;> simp_all [throughFirstFailure, Event.failure?]

end AvroSchema
