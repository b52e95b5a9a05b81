import Mathlib.Algebra.BigOperators.Group.Multiset.Basic
import Mathlib.Tactic.Abel
import AvroSchema.Proofs.Itinerary
import AvroSchema.Proofs.Repetition
import AvroSchema.Verification.Transcript

/-!
# What is wrong at an arrival

`Arrival.failures` says what is wrong with a type that is reached with a namespace, as far as that
can be told from the type and the namespace alone: all but whether its fullname belongs to another
definition. The description has no order and counts repeated names after the fact. The main
statement, `failures_itinerary`, says that the stops of an itinerary find exactly what is wrong
at its arrivals.
-/

namespace AvroSchema

namespace Schema

/-- The names of the fields of a record. -/
def fieldNames : Schema → List String
  | record _ _ fields => fields.map Field.name
  | _ => []

/-- The symbols of an enum. -/
def symbols : Schema → List String
  | enum _ _ symbols => symbols
  | _ => []

/-- How many of the places directly below a type are empty. -/
def gaps : Schema → Nat
  | record _ _ fields => fields.countP fun field => field.type.isNone
  | array _ items => [items].countP Option.isNone
  | map _ values => [values].countP Option.isNone
  | union _ branches => branches.countP Option.isNone
  | primitive .. | enum .. | fixed .. => 0

/-- How many branches of a union are unions themselves. -/
def nestedUnions : Schema → Nat
  | type@(union ..) => type.children.countP fun branch => branch.kind = .union
  | _ => 0

/-- The keys of the branches of a union that are no unions themselves. -/
def branchKeys (enclosing : String) : Schema → List String
  | type@(union ..) =>
      (type.children.filter fun branch => branch.kind ≠ .union).map fun branch =>
        branch.branchKey enclosing
  | _ => []

end Schema

/-- What is wrong with names that are to be simple and to differ from each other and from earlier
ones. -/
def nameFailures (malformed duplicate : String → Failure) (earlier names : List String) :
    Multiset Failure :=
  (names.filter fun name => !Name.isSimple name).map malformed +
    ((repeats id (earlier.filter Name.isSimple) (names.filter Name.isSimple)).map duplicate :
      List Failure)

/-- What is wrong with a definition that is reached with a namespace. -/
def Definition.failures (definition : Definition) (enclosing : String) : List Failure :=
  match definition.nameError? with
  | some cause => [.names definition cause]
  | none =>
      if definition.fullname = (definition.resolve enclosing).fullname then []
      else [.fullname definition (definition.resolve enclosing).fullname]

/-- What is wrong with a type that is reached with a namespace, without what is wrong with its
children. -/
def Arrival.failures (arrival : Arrival) : Multiset Failure :=
  match arrival.type with
  | .primitive _ token => if Name.isPrimitive token then 0 else {.unknownPrimitive token}
  | type@(.record _ definition _) =>
      definition.failures arrival.enclosing +
        nameFailures (.malformedField definition) (.duplicateField definition) [] type.fieldNames +
        .replicate type.gaps (.missingField definition)
  | type@(.enum _ definition _) =>
      definition.failures arrival.enclosing +
        nameFailures (.malformedSymbol definition) (.duplicateSymbol definition) [] type.symbols
  | .fixed _ definition _ => definition.failures arrival.enclosing
  | type@(.array ..) | type@(.map ..) => .replicate type.gaps .missingElement
  | type@(.union ..) =>
      .replicate type.nestedUnions .nestedUnion +
        ((repeats id [] (type.branchKeys arrival.enclosing)).map .duplicateBranch :
          List Failure) +
        .replicate type.gaps .missingBranch

/-- What is found wrong at a stop as long as no names are defined. -/
def Stop.failures (stop : Stop) : List Failure :=
  (stop.events .empty).filterMap Event.failure?

/-- What is found wrong at the stops of a tour as long as no names are defined. -/
def Tour.failures (tour : Tour) : Multiset Failure :=
  (tour.stops.flatMap Stop.failures : List Failure)

namespace Tour

/-- What is wrong at the arrivals of a tour. -/
def arrivalFailures (tour : Tour) : Multiset Failure :=
  (tour.arrivals.map Arrival.failures).sum

/-- What is found at a stop in front of a tour adds to what is found on the tour. -/
theorem failures_after (stop : Stop) (tour : Tour) :
    (tour.after stop).failures = stop.failures + tour.failures := by
  simp [failures, after]

/-- What is found on a tour that follows adds to what was found before. -/
theorem failures_and_then (tour : Tour) (next : List NodeId → Tour) :
    (tour.andThen next).failures = tour.failures + (next tour.entered).failures := by
  simp [failures, andThen]

/-- What is wrong at an arrival in front of a tour adds to what is wrong on the tour. -/
theorem arrival_failures_after_arrival (type : Schema) (enclosing : String) (tour : Tour) :
    (tour.after (.arrival type enclosing)).arrivalFailures =
      Arrival.failures ⟨type, enclosing⟩ + tour.arrivalFailures := by
  simp [arrivalFailures, Stop.arrival?]

/-- A stop in front of a tour that is no arrival leaves the arrivals as they are. -/
theorem arrival_failures_after {stop : Stop} (h : stop.arrival? = none) (tour : Tour) :
    (tour.after stop).arrivalFailures = tour.arrivalFailures := by
  simp [arrivalFailures, h]

/-- What is wrong at the arrivals of a tour that follows adds to what was wrong before. -/
theorem arrival_failures_and_then (tour : Tour) (next : List NodeId → Tour) :
    (tour.andThen next).arrivalFailures =
      tour.arrivalFailures + (next tour.entered).arrivalFailures := by
  simp [arrivalFailures]

end Tour

/-- The names in front of a list are checked first, and what is left is checked after them. -/
theorem name_failures_cons (malformed duplicate : String → Failure) (earlier : List String)
    (name : String) (rest : List String) :
    nameFailures malformed duplicate earlier (name :: rest) =
      ((if !Name.isSimple name then [malformed name]
        else if earlier.contains name then [duplicate name] else [] : List Failure) :
          Multiset Failure) +
        nameFailures malformed duplicate (name :: earlier) rest := by
  cases hsimple : Name.isSimple name with
  | false => simp [nameFailures, hsimple]
  | true =>
      by_cases hknown : name ∈ earlier
      · simp [nameFailures, hsimple, repeats, hknown]
      · simp [nameFailures, hsimple, repeats, hknown]

/-- A field is checked for its name. -/
theorem Stop.failures_field (definition : Definition) (earlier : List String) (name : String) :
    (Stop.field definition earlier name).failures =
      if !Name.isSimple name then [.malformedField definition name]
      else if earlier.contains name then [.duplicateField definition name] else [] := by
  simp only [failures, events]
  split_ifs <;> rfl

/-- A symbol is checked as a name. -/
theorem Stop.failures_symbol (definition : Definition) (earlier : List String) (name : String) :
    (Stop.symbol definition earlier name).failures =
      if !Name.isSimple name then [.malformedSymbol definition name]
      else if earlier.contains name then [.duplicateSymbol definition name] else [] := by
  simp only [failures, events]
  split_ifs <;> rfl

/-- A branch is checked for its key. -/
theorem Stop.failures_branch (earlier : List String) (key : String) :
    (Stop.branch earlier key).failures =
      if earlier.contains key then [.duplicateBranch key] else [] := by
  simp only [failures, events]
  split_ifs <;> rfl

/-- As long as no names are defined, a definition is only checked for what concerns it alone. -/
theorem Stop.failures_definition (type : Schema) (definition : Definition) (enclosing : String) :
    (type.definitionEvents .empty definition enclosing).filterMap Event.failure? =
      definition.failures enclosing := by
  unfold Schema.definitionEvents Definition.failures
  cases definition.nameError? with
  | some cause => rfl
  | none =>
      simp only [NameTable.defines, NameTable.empty]
      split_ifs <;> rfl

/-- At the symbols of an enum, nothing else is wrong than with the symbols as names. -/
theorem Definition.failures_symbol_stops (definition : Definition) (earlier symbols : List String) :
    (((definition.symbolStops earlier symbols).flatMap Stop.failures : List Failure) :
        Multiset Failure) =
      nameFailures (.malformedSymbol definition) (.duplicateSymbol definition) earlier symbols := by
  induction symbols generalizing earlier with
  | nil => rfl
  | cons symbol rest ih =>
      rw [symbolStops, List.flatMap_cons, ← Multiset.coe_add, ih, name_failures_cons,
        Stop.failures_symbol]

mutual
/-- What is found wrong on the tour through a type is what is wrong at its arrivals. -/
theorem Schema.failures_tour (enclosing : String) (entered : List NodeId) (type : Schema) :
    (type.tour enclosing entered).failures = (type.tour enclosing entered).arrivalFailures := by
  cases type with
  | primitive node token =>
      rw [Schema.tour]
      by_cases hknown : Name.isPrimitive token = true
      · simp [Tour.failures, Tour.arrivalFailures, Tour.arrivals, Stop.failures, Stop.events,
          Stop.arrival?, Schema.arrivalEvents, Arrival.failures, hknown]
      · simp [Tour.failures, Tour.arrivalFailures, Tour.arrivals, Stop.failures, Stop.events,
          Stop.arrival?, Schema.arrivalEvents, Arrival.failures, hknown, Event.failure?]
  | record node definition fields =>
      rw [Schema.tour]
      split
      · rfl
      · have hhere : (Stop.arrival (.record node definition fields) enclosing).failures =
            definition.failures enclosing :=
          Stop.failures_definition _ definition enclosing
        rw [Tour.failures_after, Tour.arrival_failures_after_arrival, Field.failures_tour, hhere,
          ← add_assoc, ← add_assoc]
        rfl
  | enum node definition symbols =>
      rw [Schema.tour]
      split
      · rfl
      · have hhere : (Stop.arrival (.enum node definition symbols) enclosing).failures =
            definition.failures enclosing :=
          Stop.failures_definition _ definition enclosing
        rw [Tour.failures, List.flatMap_cons, ← Multiset.coe_add, hhere,
          definition.failures_symbol_stops, Tour.arrivalFailures, Tour.arrivals,
          List.filterMap_cons, definition.filter_map_arrival_symbol_stops]
        exact (add_zero _).symm
  | fixed node definition size =>
      rw [Schema.tour]
      split
      · rfl
      · have hhere : (Stop.arrival (.fixed node definition size) enclosing).failures =
            definition.failures enclosing :=
          Stop.failures_definition _ definition enclosing
        simp [Tour.failures, Tour.arrivalFailures, Tour.arrivals, Stop.arrival?, hhere,
          Arrival.failures]
  | array node items =>
      rw [Schema.tour, Tour.failures_after, Tour.arrival_failures_after_arrival,
        Schema.failures_tour_child]
      exact Multiset.zero_add _
  | map node values =>
      rw [Schema.tour, Tour.failures_after, Tour.arrival_failures_after_arrival,
        Schema.failures_tour_child]
      exact Multiset.zero_add _
  | union node branches =>
      rw [Schema.tour, Tour.failures_after, Tour.arrival_failures_after_arrival,
        Schema.failures_tour_branches]
      exact Multiset.zero_add _

/-- What is found wrong where a type is due is that it is missing, or what is wrong at its
arrivals. -/
theorem Schema.failures_tour_child (gap : Gap) (enclosing : String) (entered : List NodeId)
    (child : Option Schema) :
    (Schema.tourChild gap enclosing entered child).failures =
      .replicate ([child].countP Option.isNone) gap.failure +
        (Schema.tourChild gap enclosing entered child).arrivalFailures := by
  cases child with
  | none => rfl
  | some type =>
      rw [Schema.tourChild, Schema.failures_tour]
      exact (Multiset.zero_add _).symm

/-- What is found wrong with the fields of a record concerns their names or missing types, or is
wrong at the arrivals at what is below them. -/
theorem Field.failures_tour (definition : Definition) (enclosing : String)
    (earlier : List String) (entered : List NodeId) (fields : List Field) :
    (Field.tour definition enclosing earlier entered fields).failures =
      nameFailures (.malformedField definition) (.duplicateField definition) earlier
          (fields.map Field.name) +
        .replicate (fields.countP fun field => field.type.isNone) (.missingField definition) +
        (Field.tour definition enclosing earlier entered fields).arrivalFailures := by
  match fields with
  | [] => rfl
  | ⟨name, type⟩ :: rest =>
      have hgaps : (⟨name, type⟩ :: rest).countP (fun field => field.type.isNone) =
          [type].countP Option.isNone + rest.countP fun field => field.type.isNone := by
        simp [List.countP_cons, add_comm]
      rw [Field.tour, Tour.failures_after, Tour.failures_and_then, Stop.failures_field,
        Schema.failures_tour_child, Field.failures_tour, Tour.arrival_failures_after rfl,
        Tour.arrival_failures_and_then, List.map_cons, name_failures_cons, hgaps,
        Multiset.replicate_add]
      -- Both sides now add up the same failures, in different orders.
      simp only [Gap.failure]
      abel

/-- What is found wrong with the branches of a union concerns their keys, nested unions or missing
branches, or is wrong at the arrivals at what is below them. -/
theorem Schema.failures_tour_branches (enclosing : String) (earlier : List String)
    (entered : List NodeId) (branches : List (Option Schema)) :
    (Schema.tourBranches enclosing earlier entered branches).failures =
      .replicate ((branches.filterMap id).countP fun branch => branch.kind = .union)
          .nestedUnion +
        ((repeats id earlier (((branches.filterMap id).filter fun branch =>
          branch.kind ≠ .union).map fun branch => branch.branchKey enclosing)).map
            .duplicateBranch : List Failure) +
        .replicate (branches.countP Option.isNone) .missingBranch +
        (Schema.tourBranches enclosing earlier entered branches).arrivalFailures := by
  match branches with
  | [] => rfl
  | none :: rest =>
      have hhere : (Stop.gap .branch).failures = [.missingBranch] := rfl
      rw [Schema.tourBranches, Tour.failures_after, Tour.arrival_failures_after rfl,
        Schema.failures_tour_branches enclosing earlier entered rest, hhere]
      simp [Multiset.replicate_succ]
  | some type :: rest =>
      have hchildren : (some type :: rest).filterMap id = type :: rest.filterMap id := rfl
      rw [Schema.tourBranches, hchildren]
      split
      · next hnested =>
          have hhere : Stop.nested.failures = [.nestedUnion] := rfl
          rw [Tour.failures_after, Tour.failures_and_then, Tour.arrival_failures_after rfl,
            Tour.arrival_failures_and_then, Schema.failures_tour, Schema.failures_tour_branches,
            hhere]
          simp [hnested, Multiset.replicate_succ]
          abel
      · next hkeyed =>
          rw [Tour.failures_after, Tour.failures_and_then, Tour.arrival_failures_after rfl,
            Tour.arrival_failures_and_then, Schema.failures_tour, Schema.failures_tour_branches,
            Stop.failures_branch]
          by_cases hknown : type.branchKey enclosing ∈ earlier
          · simp [hkeyed, repeats, hknown, ← Multiset.cons_coe]
            abel
          · simp [hkeyed, repeats, hknown]
            abel
end

/-- The stops of an itinerary find exactly what is wrong at its arrivals. -/
theorem Schema.failures_itinerary (root : Schema) :
    ((root.itinerary.flatMap Stop.failures : List Failure) : Multiset Failure) =
      ((root.arrivals Definition.innerNamespace).map Arrival.failures).sum := by
  rw [← Schema.filter_map_arrival_itinerary]
  exact Schema.failures_tour "" [] root

end AvroSchema
