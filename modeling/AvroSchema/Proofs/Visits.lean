import AvroSchema.Proofs.Registrations
import AvroSchema.Proofs.Unfolding

/-!
# Visits of a walk

A walk visits a type whenever it comes to it, be it to go into the type or to turn back from a named
type that it has entered before. `Tour.Follows` gives the rules by which tours are put together, so
that what holds of the walk through every type is shown by one induction on the rules. The main
statement says that the walk goes into named types where it visits them first, and nowhere else
(`Schema.first_visits_eq`).
-/

namespace AvroSchema

/-- The visit that a stop is. -/
def Stop.visit? : Stop → Option Arrival
  | .arrival type enclosing | .returned type enclosing => some ⟨type, enclosing⟩
  | .field .. | .symbol .. | .nested | .branch .. | .gap _ => none

/-- A stop that is no visit is no arrival either. -/
theorem Stop.arrival_of_visit_eq_none {stop : Stop} (h : stop.visit? = none) :
    stop.arrival? = none := by
  cases stop with
  | arrival | returned => cases h
  | field | symbol | nested | branch | gap => rfl

namespace Arrival

/-- The arrivals that are at named types. -/
def atNamed (arrivals : List Arrival) : List Arrival :=
  arrivals.filter fun arrival => arrival.type.isNamed

/-- An arrival at a named type is kept. -/
theorem at_named_cons_of_named {arrival : Arrival} (hnamed : arrival.type.isNamed)
    (arrivals : List Arrival) : atNamed (arrival :: arrivals) = arrival :: atNamed arrivals :=
  List.filter_cons_of_pos hnamed

/-- An arrival at any other type is left out. -/
theorem at_named_cons_of_unnamed {arrival : Arrival} (hunnamed : arrival.type.isNamed = false)
    (arrivals : List Arrival) : atNamed (arrival :: arrivals) = atNamed arrivals :=
  List.filter_cons_of_neg (by simp [hunnamed])

/-- The arrivals at named types in two lists are those in the first and those in the second. -/
theorem at_named_append (first second : List Arrival) :
    atNamed (first ++ second) = atNamed first ++ atNamed second :=
  List.filter_append first second

end Arrival

namespace Tour

/-- The visits among the stops of a tour. -/
def visits (tour : Tour) : List Arrival :=
  tour.stops.filterMap Stop.visit?

/-- A stop in front of a tour comes first if it is a visit. -/
theorem visits_after (stop : Stop) (tour : Tour) :
    (tour.after stop).visits = stop.visit?.toList ++ tour.visits := by
  cases h : stop.visit? <;> simp [visits, after, h]

/-- An arrival in front of a tour is visited first, and is its first arrival. -/
theorem visits_arrivals_after_arrival (type : Schema) (enclosing : String) (tour : Tour) :
    (tour.after (.arrival type enclosing)).visits = ⟨type, enclosing⟩ :: tour.visits ∧
      (tour.after (.arrival type enclosing)).arrivals = ⟨type, enclosing⟩ :: tour.arrivals :=
  ⟨rfl, rfl⟩

/-- The visits of a tour that follows come last. -/
theorem visits_and_then (tour : Tour) (next : List NodeId → Tour) :
    (tour.andThen next).visits = tour.visits ++ (next tour.entered).visits := by
  simp [visits, andThen]

/-- The rules for a tour that is made with an enclosing namespace after some named nodes have been
entered. -/
inductive Follows : String → List NodeId → Tour → Prop where
  /-- There may be nothing to do. -/
  | rest {enclosing : String} {entered : List NodeId} : Follows enclosing entered ⟨[], entered⟩
  /-- Stops that are no visits may be made at any time. -/
  | pass {enclosing : String} {entered : List NodeId} {tour : Tour} {stop : Stop} :
      stop.visit? = none → Follows enclosing entered tour →
        Follows enclosing entered (tour.after stop)
  /-- The tour turns back from a named type that has been entered. -/
  | turnBack {enclosing : String} {entered : List NodeId} {type : Schema} :
      type.isNamed → type.node ∈ entered →
        Follows enclosing entered ⟨[.returned type enclosing], entered⟩
  /-- The tour goes through any other type with the namespace that it has. -/
  | goThrough {enclosing : String} {entered : List NodeId} {tour : Tour} {type : Schema} :
      type.definition? = none → Follows enclosing entered tour →
        Follows enclosing entered (tour.after (.arrival type enclosing))
  /-- The tour enters a named type, and goes on inside with the namespace of its definition. -/
  | enter {enclosing : String} {entered : List NodeId} {tour : Tour} {type : Schema}
      {definition : Definition} :
      type.definition? = some definition → type.node ∉ entered →
        Follows (definition.innerNamespace enclosing) (type.node :: entered) tour →
          Follows enclosing entered (tour.after (.arrival type enclosing))
  /-- A tour may be made after another one. -/
  | andThen {enclosing : String} {entered : List NodeId} {tour : Tour}
      {next : List NodeId → Tour} :
      Follows enclosing entered tour → Follows enclosing tour.entered (next tour.entered) →
        Follows enclosing entered (tour.andThen next)

/-- A tour that turns back from a named type if it has been entered follows the rules if it does
when it enters the type. -/
theorem Follows.of_named {enclosing : String} {entered : List NodeId} {tour : Tour} (type : Schema)
    {definition : Definition} (hdefinition : type.definition? = some definition)
    (hinside : Follows (definition.innerNamespace enclosing) (type.node :: entered) tour) :
    Follows enclosing entered
      (if entered.contains type.node then ⟨[.returned type enclosing], entered⟩
        else tour.after (.arrival type enclosing)) := by
  have hnamed := Schema.is_named_of_definition hdefinition
  by_cases hknown : type.node ∈ entered
  · rw [if_pos (by simpa using hknown)]
    exact .turnBack hnamed hknown
  · rw [if_neg (by simpa using hknown)]
    exact .enter hdefinition hknown hinside

/-- The stops at the symbols of an enum are no visits. -/
theorem follows_symbol_stops (definition : Definition) (enclosing : String) (entered : List NodeId)
    (earlier symbols : List String) :
    Follows enclosing entered ⟨definition.symbolStops earlier symbols, entered⟩ := by
  induction symbols generalizing earlier with
  | nil => exact .rest
  | cons symbol rest ih => exact .pass rfl (ih (symbol :: earlier))

end Tour

open Tour

mutual
/-- The tour of a type follows the rules. -/
theorem Schema.follows_tour (enclosing : String) (entered : List NodeId) (type : Schema) :
    Follows enclosing entered (type.tour enclosing entered) := by
  cases type with
  | primitive node token => exact .goThrough rfl .rest
  | record node definition fields =>
      rw [Schema.tour]
      exact .of_named (.record node definition fields) rfl
        (Field.follows_tour definition _ [] (node :: entered) fields)
  | enum node definition symbols =>
      rw [Schema.tour]
      exact .of_named (.enum node definition symbols) rfl
        (follows_symbol_stops definition _ (node :: entered) [] symbols)
  | fixed node definition size =>
      rw [Schema.tour]
      exact .of_named (.fixed node definition size) rfl .rest
  | array node items =>
      rw [Schema.tour]
      exact .goThrough rfl (Schema.follows_tour_child .element enclosing entered items)
  | map node values =>
      rw [Schema.tour]
      exact .goThrough rfl (Schema.follows_tour_child .element enclosing entered values)
  | union node branches =>
      rw [Schema.tour]
      exact .goThrough rfl (Schema.follows_tour_branches enclosing [] entered branches)

/-- The tour of a place where a type is due follows the rules. -/
theorem Schema.follows_tour_child (gap : Gap) (enclosing : String) (entered : List NodeId)
    (child : Option Schema) :
    Follows enclosing entered (Schema.tourChild gap enclosing entered child) := by
  cases child with
  | none => exact .pass rfl .rest
  | some type => exact Schema.follows_tour enclosing entered type

/-- The tour of the fields of a record follows the rules. -/
theorem Field.follows_tour (definition : Definition) (enclosing : String) (earlier : List String)
    (entered : List NodeId) (fields : List Field) :
    Follows enclosing entered (Field.tour definition enclosing earlier entered fields) := by
  match fields with
  | [] => exact .rest
  | ⟨name, type⟩ :: rest =>
      rw [Field.tour]
      exact .pass rfl (.andThen
        (Schema.follows_tour_child (.field definition) enclosing entered type)
        (Field.follows_tour definition enclosing (name :: earlier) _ rest))

/-- The tour of the branches of a union follows the rules. -/
theorem Schema.follows_tour_branches (enclosing : String) (earlier : List String)
    (entered : List NodeId) (branches : List (Option Schema)) :
    Follows enclosing entered (Schema.tourBranches enclosing earlier entered branches) := by
  match branches with
  | [] => exact .rest
  | none :: rest =>
      rw [Schema.tourBranches]
      exact .pass rfl (Schema.follows_tour_branches enclosing earlier entered rest)
  | some type :: rest =>
      have hfirst := Schema.follows_tour enclosing entered type
      rw [Schema.tourBranches]
      split
      · exact .pass rfl (.andThen hfirst (Schema.follows_tour_branches enclosing earlier _ rest))
      · exact .pass rfl (.andThen hfirst
          (Schema.follows_tour_branches enclosing (type.branchKey enclosing :: earlier) _ rest))
end

namespace Tour.Follows

variable {enclosing : String} {entered : List NodeId} {tour : Tour}

/-- The named nodes that have been entered after a tour are those entered before it and those that
it visits. -/
theorem mem_entered_iff (hfollows : Follows enclosing entered tour) (node : NodeId) :
    node ∈ tour.entered ↔ node ∈ Arrival.namedNodes tour.visits ∨ node ∈ entered := by
  induction hfollows with
  | rest => simp [visits, Arrival.namedNodes]
  | pass hsilent _ ih =>
      rw [visits_after, hsilent, entered_after, ih]
      rfl
  | @turnBack enclosing entered type hnamed hknown =>
      have hvisited : Arrival.namedNodes (visits ⟨[.returned type enclosing], entered⟩) =
          [type.node] :=
        Arrival.named_nodes_cons_of_named hnamed []
      rw [hvisited, List.mem_singleton]
      constructor
      · exact .inr
      · rintro (rfl | hbefore)
        · exact hknown
        · exact hbefore
  | @goThrough enclosing entered tour type hunnamed _ ih =>
      have hnotNamed : type.isNamed = false := by rw [Schema.isNamed, hunnamed, Option.isSome_none]
      rw [entered_after, ih, (visits_arrivals_after_arrival type enclosing tour).1,
        Arrival.named_nodes_cons_of_not_named hnotNamed]
  | @enter enclosing entered tour type definition hdefinition hnew _ ih =>
      rw [entered_after, ih, (visits_arrivals_after_arrival type enclosing tour).1,
        Arrival.named_nodes_cons_of_named (Schema.is_named_of_definition hdefinition),
        List.mem_cons, List.mem_cons]
      exact or_left_comm.trans or_assoc.symm
  | andThen _ _ ih ihNext =>
      rw [entered_and_then, ihNext, ih, visits_and_then, Arrival.named_nodes_append,
        List.mem_append]
      exact or_left_comm.trans or_assoc.symm

/-- A tour goes into the named types that it visits first, of those that have not been entered
before it. -/
theorem firsts_visits (hfollows : Follows enclosing entered tour) :
    firsts (fun visit => visit.type.node) entered (Arrival.atNamed tour.visits) =
      Arrival.atNamed tour.arrivals := by
  induction hfollows with
  | rest => rfl
  | pass hsilent _ ih =>
      rw [visits_after, hsilent, arrivals_after, Stop.arrival_of_visit_eq_none hsilent]
      exact ih
  | @turnBack enclosing entered type hnamed hknown =>
      have hvisited : Arrival.atNamed (visits ⟨[.returned type enclosing], entered⟩) =
          [⟨type, enclosing⟩] :=
        Arrival.at_named_cons_of_named hnamed []
      rw [hvisited, firsts, if_pos hknown]
      rfl
  | @goThrough enclosing entered tour type hunnamed _ ih =>
      obtain ⟨hvisited, harrived⟩ := visits_arrivals_after_arrival type enclosing tour
      have hnotNamed : type.isNamed = false := by rw [Schema.isNamed, hunnamed, Option.isSome_none]
      rw [hvisited, harrived, Arrival.at_named_cons_of_unnamed hnotNamed,
        Arrival.at_named_cons_of_unnamed hnotNamed, ih]
  | @enter enclosing entered tour type definition hdefinition hnew _ ih =>
      obtain ⟨hvisited, harrived⟩ := visits_arrivals_after_arrival type enclosing tour
      have hnamed := Schema.is_named_of_definition hdefinition
      rw [hvisited, harrived, Arrival.at_named_cons_of_named hnamed,
        Arrival.at_named_cons_of_named hnamed, firsts, if_neg hnew, ih]
  | @andThen enclosing entered tour next hfollows _ ih ihNext =>
      -- The second tour starts with the nodes of the first one's visits, in another order.
      have hlater := firsts_congr (fun visit : Arrival => visit.type.node)
        (fun node => (hfollows.mem_entered_iff node).trans List.mem_append.symm)
        (Arrival.atNamed (next tour.entered).visits)
      rw [visits_and_then, arrivals_and_then, Arrival.at_named_append, Arrival.at_named_append,
        firsts_append, ih]
      exact congrArg _ (hlater.symm.trans ihNext)

end Tour.Follows

namespace Schema

/-- All visits of the walk from the root of a schema, in order. -/
def visits (root : Schema) : List Arrival :=
  root.itinerary.filterMap Stop.visit?

/-- The first visits to the named types below a root, in order. -/
def firstVisits (root : Schema) : List Arrival :=
  firsts (fun visit => visit.type.node) [] (Arrival.atNamed root.visits)

/-- First visits are visits to named types. -/
theorem mem_visits_of_mem_first_visits {root : Schema} {visit : Arrival}
    (h : visit ∈ root.firstVisits) : visit ∈ root.visits ∧ visit.type.isNamed :=
  List.mem_filter.1 ((firsts_sublist _ _).mem h)

/-- The walk from the root goes into the named types where it visits them first. -/
theorem first_visits_eq (root : Schema) :
    root.firstVisits = Arrival.atNamed (root.arrivals Definition.innerNamespace) := by
  rw [← filter_map_arrival_itinerary]
  exact (root.follows_tour "" []).firsts_visits

end Schema

end AvroSchema
