import AvroSchema.Proofs.Arrivals
import AvroSchema.Schema.Itinerary

/-!
# The arrivals of an itinerary

A tour lists what the recursive walk meets. The main statement says that the arrivals among the
stops of an itinerary are those of the walk with waiting arrivals, in the same order: a record's
fields and a union's branches are what the recursion has yet to come back to
(`filter_map_arrival_itinerary`).
-/

namespace AvroSchema

/-- The arrival that a stop is. -/
def Stop.arrival? : Stop → Option Arrival
  | .arrival type enclosing => some ⟨type, enclosing⟩
  | _ => none

namespace Tour

/-- The arrivals among the stops of a tour. -/
def arrivals (tour : Tour) : List Arrival :=
  tour.stops.filterMap Stop.arrival?

/-- A stop in front of a tour comes first if it is an arrival. -/
@[simp] theorem arrivals_after (stop : Stop) (tour : Tour) :
    (tour.after stop).arrivals = stop.arrival?.toList ++ tour.arrivals := by
  cases h : stop.arrival? <;> simp [arrivals, after, h]

/-- The arrivals of a tour that follows come last. -/
@[simp] theorem arrivals_and_then (tour : Tour) (next : List NodeId → Tour) :
    (tour.andThen next).arrivals = tour.arrivals ++ (next tour.entered).arrivals := by
  simp [arrivals, andThen]

/-- A stop in front of a tour does not change what is entered. -/
@[simp] theorem entered_after (stop : Stop) (tour : Tour) :
    (tour.after stop).entered = tour.entered :=
  rfl

/-- What two tours enter is what the second enters after the first. -/
@[simp] theorem entered_and_then (tour : Tour) (next : List NodeId → Tour) :
    (tour.andThen next).entered = (next tour.entered).entered :=
  rfl

end Tour

/-- The symbols of an enum are no arrivals. -/
theorem Definition.filter_map_arrival_symbol_stops (definition : Definition)
    (earlier symbols : List String) :
    (definition.symbolStops earlier symbols).filterMap Stop.arrival? = [] := by
  induction symbols generalizing earlier with
  | nil => rfl
  | cons symbol rest ih =>
      rw [symbolStops, List.filterMap_cons]
      exact ih _

mutual
/-- The walk goes through a type as its tour does, and then goes on with what waits. -/
theorem Schema.walk_cons_eq_tour (enclosing : String) (entered : List NodeId)
    (waiting : List Arrival) (type : Schema) :
    Arrival.walk Definition.innerNamespace entered (⟨type, enclosing⟩ :: waiting) =
      (type.tour enclosing entered).arrivals ++
        Arrival.walk Definition.innerNamespace (type.tour enclosing entered).entered waiting := by
  cases type with
  | primitive node token =>
      rw [Arrival.walk_of_not_entered (by simp [Schema.isNamed, Schema.definition?])]
      rfl
  | record node definition fields =>
      by_cases hknown : node ∈ entered
      · rw [Arrival.walk_of_entered rfl hknown, Schema.tour, if_pos (by simpa using hknown)]
        rfl
      · rw [Arrival.walk_of_not_entered fun _ => hknown, Schema.tour,
          if_neg (by simpa using hknown),
          Tour.arrivals_after, Tour.entered_after]
        -- The types of the fields now wait in front of all that waited before.
        exact congrArg (_ :: ·) (Field.walk_append_eq_tour definition _ [] _ waiting fields)
  | enum node definition symbols =>
      by_cases hknown : node ∈ entered
      · rw [Arrival.walk_of_entered rfl hknown, Schema.tour, if_pos (by simpa using hknown)]
        rfl
      · rw [Arrival.walk_of_not_entered fun _ => hknown, Schema.tour,
          if_neg (by simpa using hknown),
          Tour.arrivals, List.filterMap_cons, definition.filter_map_arrival_symbol_stops]
        rfl
  | fixed node definition size =>
      by_cases hknown : node ∈ entered
      · rw [Arrival.walk_of_entered rfl hknown, Schema.tour, if_pos (by simpa using hknown)]
        rfl
      · rw [Arrival.walk_of_not_entered fun _ => hknown, Schema.tour,
          if_neg (by simpa using hknown)]
        rfl
  | array node items =>
      rw [Arrival.walk_of_not_entered (by simp [Schema.isNamed, Schema.definition?]), Schema.tour,
        Tour.arrivals_after, Tour.entered_after]
      exact congrArg (_ :: ·) (Schema.walk_child_eq_tour .element enclosing entered waiting items)
  | map node values =>
      rw [Arrival.walk_of_not_entered (by simp [Schema.isNamed, Schema.definition?]), Schema.tour,
        Tour.arrivals_after, Tour.entered_after]
      exact congrArg (_ :: ·) (Schema.walk_child_eq_tour .element enclosing entered waiting values)
  | union node branches =>
      rw [Arrival.walk_of_not_entered (by simp [Schema.isNamed, Schema.definition?]), Schema.tour,
        Tour.arrivals_after, Tour.entered_after]
      exact congrArg (_ :: ·) (Schema.walk_branches_eq_tour enclosing [] entered waiting branches)

/-- The walk goes through a place where a type is due as its tour does. -/
theorem Schema.walk_child_eq_tour (gap : Gap) (enclosing : String) (entered : List NodeId)
    (waiting : List Arrival) (child : Option Schema) :
    Arrival.walk Definition.innerNamespace entered
        (child.toList.map (fun type => ⟨type, enclosing⟩) ++ waiting) =
      (Schema.tourChild gap enclosing entered child).arrivals ++
        Arrival.walk Definition.innerNamespace
          (Schema.tourChild gap enclosing entered child).entered waiting := by
  cases child with
  | none => rfl
  | some type => exact Schema.walk_cons_eq_tour enclosing entered waiting type

/-- The walk goes through the fields of a record as their tour does. -/
theorem Field.walk_append_eq_tour (definition : Definition) (enclosing : String)
    (earlier : List String) (entered : List NodeId) (waiting : List Arrival)
    (fields : List Field) :
    Arrival.walk Definition.innerNamespace entered
        ((fields.filterMap Field.type).map (fun type => ⟨type, enclosing⟩) ++ waiting) =
      (Field.tour definition enclosing earlier entered fields).arrivals ++
        Arrival.walk Definition.innerNamespace
          (Field.tour definition enclosing earlier entered fields).entered waiting := by
  match fields with
  | [] => rfl
  | ⟨name, type⟩ :: rest =>
      have hchildren : ((⟨name, type⟩ :: rest).filterMap Field.type) =
          type.toList ++ rest.filterMap Field.type := by
        cases type <;> rfl
      rw [hchildren, List.map_append, List.append_assoc,
        Schema.walk_child_eq_tour (.field definition),
        Field.walk_append_eq_tour definition enclosing (name :: earlier)]
      simp [Field.tour, Stop.arrival?]

/-- The walk goes through the branches of a union as their tour does. -/
theorem Schema.walk_branches_eq_tour (enclosing : String) (earlier : List String)
    (entered : List NodeId) (waiting : List Arrival) (branches : List (Option Schema)) :
    Arrival.walk Definition.innerNamespace entered
        ((branches.filterMap id).map (fun type => ⟨type, enclosing⟩) ++ waiting) =
      (Schema.tourBranches enclosing earlier entered branches).arrivals ++
        Arrival.walk Definition.innerNamespace
          (Schema.tourBranches enclosing earlier entered branches).entered waiting := by
  match branches with
  | [] => rfl
  | none :: rest =>
      rw [Schema.tourBranches, Tour.arrivals_after, Tour.entered_after]
      exact Schema.walk_branches_eq_tour enclosing earlier entered waiting rest
  | some type :: rest =>
      have hchildren : (some type :: rest).filterMap id = type :: rest.filterMap id := rfl
      rw [hchildren, List.map_cons, List.cons_append, Schema.walk_cons_eq_tour, Schema.tourBranches]
      split
      · rw [Schema.walk_branches_eq_tour enclosing earlier]
        simp [Stop.arrival?]
      · rw [Schema.walk_branches_eq_tour enclosing (type.branchKey enclosing :: earlier)]
        simp [Stop.arrival?]
end

/-- The arrivals among the stops of an itinerary are those of the walk from the root. -/
theorem Schema.filter_map_arrival_itinerary (root : Schema) :
    root.itinerary.filterMap Stop.arrival? = root.arrivals Definition.innerNamespace := by
  have hwalked := Schema.walk_cons_eq_tour "" [] [] root
  rw [Arrival.walk_nil, List.append_nil] at hwalked
  exact hwalked.symm

end AvroSchema
