import AvroSchema.Schema.Itinerary

/-!
# Acting along the walk through a schema

`Schema.walk` goes through a schema and acts at each stop. An action may break the walk off, and
then no more of the schema is looked at, which matters since an itinerary can be far longer than the
schema is large. The main statement, `Schema.walk_eq_perform_tour`, says that walking is acting at
the stops of the tour, one after the other.
-/

namespace AvroSchema

variable {m : Type → Type} [Monad m]

mutual
/-- Walk through a type that is reached with an enclosing namespace, acting at each stop. The result
is the list of the named nodes entered. -/
def Schema.walk (act : Stop → m Unit) (enclosing : String) (entered : List NodeId) :
    Schema → m (List NodeId)
  | .primitive node token => do
      act (.arrival (.primitive node token) enclosing)
      return entered
  | .record node definition fields =>
      if entered.contains node then do
        act (.returned (.record node definition fields) enclosing)
        return entered
      else do
        act (.arrival (.record node definition fields) enclosing)
        Field.walk act definition (definition.innerNamespace enclosing) [] (node :: entered) fields
  | .enum node definition symbols =>
      if entered.contains node then do
        act (.returned (.enum node definition symbols) enclosing)
        return entered
      else do
        act (.arrival (.enum node definition symbols) enclosing)
        (definition.symbolStops [] symbols).forM act
        return node :: entered
  | .fixed node definition size =>
      if entered.contains node then do
        act (.returned (.fixed node definition size) enclosing)
        return entered
      else do
        act (.arrival (.fixed node definition size) enclosing)
        return node :: entered
  | .array node items => do
      act (.arrival (.array node items) enclosing)
      Schema.walkChild act .element enclosing entered items
  | .map node values => do
      act (.arrival (.map node values) enclosing)
      Schema.walkChild act .element enclosing entered values
  | .union node branches => do
      act (.arrival (.union node branches) enclosing)
      Schema.walkBranches act enclosing [] entered branches

/-- Walk through a place where a type is due. -/
def Schema.walkChild (act : Stop → m Unit) (gap : Gap) (enclosing : String)
    (entered : List NodeId) : Option Schema → m (List NodeId)
  | none => do
      act (.gap gap)
      return entered
  | some type => type.walk act enclosing entered

/-- Walk through the fields of a record, given the names of the fields before them. -/
def Field.walk (act : Stop → m Unit) (definition : Definition) (enclosing : String)
    (earlier : List String) (entered : List NodeId) : List Field → m (List NodeId)
  | [] => return entered
  | ⟨name, type⟩ :: rest => do
      act (.field definition earlier name)
      let entered ← Schema.walkChild act (.field definition) enclosing entered type
      Field.walk act definition enclosing (name :: earlier) entered rest

/-- Walk through the branches of a union, given the keys of the branches before them. -/
def Schema.walkBranches (act : Stop → m Unit) (enclosing : String) (earlier : List String)
    (entered : List NodeId) : List (Option Schema) → m (List NodeId)
  | [] => return entered
  | none :: rest => do
      act (.gap .branch)
      Schema.walkBranches act enclosing earlier entered rest
  | some type :: rest =>
      if type.kind = .union then do
        act .nested
        let entered ← type.walk act enclosing entered
        Schema.walkBranches act enclosing earlier entered rest
      else do
        let key := type.branchKey enclosing
        act (.branch earlier key)
        let entered ← type.walk act enclosing entered
        Schema.walkBranches act enclosing (key :: earlier) entered rest
end

/-- Act at the stops of a tour, and answer with the named nodes that it has entered. -/
def Tour.perform (act : Stop → m Unit) (tour : Tour) : m (List NodeId) := do
  forM tour.stops act
  return tour.entered

variable [LawfulMonad m]

/-- A stop in front of a tour is acted at first. -/
theorem Tour.perform_after (act : Stop → m Unit) (stop : Stop) (tour : Tour) :
    (tour.after stop).perform act = act stop >>= fun _ => tour.perform act := by
  simp [perform, after]

/-- A tour that another one follows is performed first. -/
theorem Tour.perform_and_then (act : Stop → m Unit) (tour : Tour) (next : List NodeId → Tour) :
    (tour.andThen next).perform act =
      tour.perform act >>= fun entered => (next entered).perform act := by
  simp [perform, andThen]

mutual
/-- Walking through a type is acting at the stops of its tour. -/
theorem Schema.walk_eq_perform_tour (act : Stop → m Unit) (enclosing : String)
    (entered : List NodeId) (type : Schema) :
    type.walk act enclosing entered = (type.tour enclosing entered).perform act := by
  cases type with
  | primitive node token => simp [Schema.walk, Schema.tour, Tour.perform]
  | record node definition fields =>
      rw [Schema.walk, Schema.tour]
      split
      · simp [Tour.perform]
      · simp only [Tour.perform_after, Field.walk_eq_perform_tour]
  | enum node definition symbols =>
      rw [Schema.walk, Schema.tour]
      split <;> simp [Tour.perform]
  | fixed node definition size =>
      rw [Schema.walk, Schema.tour]
      split <;> simp [Tour.perform]
  | array node items =>
      simp only [Schema.walk, Schema.tour, Tour.perform_after, Schema.walk_child_eq_perform_tour]
  | map node values =>
      simp only [Schema.walk, Schema.tour, Tour.perform_after, Schema.walk_child_eq_perform_tour]
  | union node branches =>
      simp only [Schema.walk, Schema.tour, Tour.perform_after, Schema.walk_branches_eq_perform_tour]

/-- Walking through a place where a type is due is acting at the stops of its tour. -/
theorem Schema.walk_child_eq_perform_tour (act : Stop → m Unit) (gap : Gap) (enclosing : String)
    (entered : List NodeId) (child : Option Schema) :
    Schema.walkChild act gap enclosing entered child =
      (Schema.tourChild gap enclosing entered child).perform act := by
  cases child with
  | none => simp [Schema.walkChild, Schema.tourChild, Tour.perform]
  | some type =>
      simp only [Schema.walkChild, Schema.tourChild, Schema.walk_eq_perform_tour]

/-- Walking through fields is acting at the stops of their tour. -/
theorem Field.walk_eq_perform_tour (act : Stop → m Unit) (definition : Definition)
    (enclosing : String) (earlier : List String) (entered : List NodeId) (fields : List Field) :
    Field.walk act definition enclosing earlier entered fields =
      (Field.tour definition enclosing earlier entered fields).perform act := by
  match fields with
  | [] => simp [Field.walk, Field.tour, Tour.perform]
  | ⟨name, type⟩ :: rest =>
      simp only [Field.walk, Field.tour, Tour.perform_after, Tour.perform_and_then,
        Schema.walk_child_eq_perform_tour, Field.walk_eq_perform_tour]

/-- Walking through branches is acting at the stops of their tour. -/
theorem Schema.walk_branches_eq_perform_tour (act : Stop → m Unit) (enclosing : String)
    (earlier : List String) (entered : List NodeId) (branches : List (Option Schema)) :
    Schema.walkBranches act enclosing earlier entered branches =
      (Schema.tourBranches enclosing earlier entered branches).perform act := by
  match branches with
  | [] => simp [Schema.walkBranches, Schema.tourBranches, Tour.perform]
  | none :: rest =>
      simp only [Schema.walkBranches, Schema.tourBranches, Tour.perform_after,
        Schema.walk_branches_eq_perform_tour]
  | some type :: rest =>
      rw [Schema.walkBranches, Schema.tourBranches]
      split <;>
        simp only [Tour.perform_after, Tour.perform_and_then, Schema.walk_eq_perform_tour,
          Schema.walk_branches_eq_perform_tour]
end

end AvroSchema
