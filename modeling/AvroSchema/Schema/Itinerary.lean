import AvroSchema.Schema.Naming

/-!
# The walk through a schema

A schema is walked depth first and in declaration order, from the root and the empty namespace. The
walk enters a definition only when it first arrives there, but everything else at every arrival.
The types in a record are reached with the namespace that its definition stands in, or the one it
was reached with if its names are refused. The types in an array, a map or a union are reached with
the namespace that these were reached with themselves.

`Schema.itinerary` lists what the walk meets, one `Stop` after the other. It does not depend on what
is found wrong along the way, so what a verifier checks at each stop is a matter of its own. Since
unnamed types are entered at every arrival, an itinerary can be far longer than the schema is large.
-/

namespace AvroSchema

/-- A place where a type is due and none is given. -/
inductive Gap where
  | field (definition : Definition)
  | element
  | branch
deriving DecidableEq

/-- What the walk through a schema meets at one moment. -/
inductive Stop where
  /-- A type that the walk goes into. -/
  | arrival (type : Schema) (enclosing : String)
  /-- A named type that the walk has entered before. -/
  | returned (type : Schema) (enclosing : String)
  /-- The name of a field of a record, after the names of earlier fields, the latest first. -/
  | field (definition : Definition) (earlier : List String) (name : String)
  /-- A symbol of an enum, after earlier symbols, the latest first. -/
  | symbol (definition : Definition) (earlier : List String) (name : String)
  /-- A branch of a union that is a union itself. -/
  | nested
  /-- A branch of a union that is none, after the keys of earlier ones, the latest first. -/
  | branch (earlier : List String) (key : String)
  /-- A missing type. -/
  | gap (missing : Gap)

/-- The stops of a walk together with the named nodes that it has entered by its end. -/
structure Tour where
  stops : List Stop
  entered : List NodeId

/-- A tour with a stop put in front of it. -/
def Tour.after (stop : Stop) (tour : Tour) : Tour :=
  ⟨stop :: tour.stops, tour.entered⟩

/-- A tour followed by one that starts where it ends. -/
def Tour.andThen (tour : Tour) (next : List NodeId → Tour) : Tour :=
  let rest := next tour.entered
  ⟨tour.stops ++ rest.stops, rest.entered⟩

/-- The stops at the symbols of an enum, given the symbols before them. -/
def Definition.symbolStops (definition : Definition) :
    (earlier : List String) → (symbols : List String) → List Stop
  | _, [] => []
  | earlier, symbol :: rest =>
      .symbol definition earlier symbol :: definition.symbolStops (symbol :: earlier) rest

mutual
/-- The walk through a type that is reached with an enclosing namespace. -/
def Schema.tour (enclosing : String) (entered : List NodeId) : Schema → Tour
  | .primitive node token => ⟨[.arrival (.primitive node token) enclosing], entered⟩
  | .record node definition fields =>
      if entered.contains node then
        ⟨[.returned (.record node definition fields) enclosing], entered⟩
      else
        (Field.tour definition (definition.innerNamespace enclosing) [] (node :: entered)
          fields).after (.arrival (.record node definition fields) enclosing)
  | .enum node definition symbols =>
      if entered.contains node then ⟨[.returned (.enum node definition symbols) enclosing], entered⟩
      else
        ⟨.arrival (.enum node definition symbols) enclosing :: definition.symbolStops [] symbols,
          node :: entered⟩
  | .fixed node definition size =>
      if entered.contains node then ⟨[.returned (.fixed node definition size) enclosing], entered⟩
      else ⟨[.arrival (.fixed node definition size) enclosing], node :: entered⟩
  | .array node items =>
      (Schema.tourChild .element enclosing entered items).after
        (.arrival (.array node items) enclosing)
  | .map node values =>
      (Schema.tourChild .element enclosing entered values).after
        (.arrival (.map node values) enclosing)
  | .union node branches =>
      (Schema.tourBranches enclosing [] entered branches).after
        (.arrival (.union node branches) enclosing)

/-- The walk through a place where a type is due. -/
def Schema.tourChild (gap : Gap) (enclosing : String) (entered : List NodeId) :
    Option Schema → Tour
  | none => ⟨[.gap gap], entered⟩
  | some type => type.tour enclosing entered

/-- The walk through the fields of a record, given the names of the fields before them. -/
def Field.tour (definition : Definition) (enclosing : String) (earlier : List String)
    (entered : List NodeId) : List Field → Tour
  | [] => ⟨[], entered⟩
  | ⟨name, type⟩ :: rest =>
      ((Schema.tourChild (.field definition) enclosing entered type).andThen fun entered =>
        Field.tour definition enclosing (name :: earlier) entered rest).after
          (.field definition earlier name)

/-- The walk through the branches of a union, given the keys of the branches before them. A missing
branch and a nested union have no key. -/
def Schema.tourBranches (enclosing : String) (earlier : List String) (entered : List NodeId) :
    List (Option Schema) → Tour
  | [] => ⟨[], entered⟩
  | none :: rest => (Schema.tourBranches enclosing earlier entered rest).after (.gap .branch)
  | some type :: rest =>
      if type.kind = .union then
        ((type.tour enclosing entered).andThen fun entered =>
          Schema.tourBranches enclosing earlier entered rest).after .nested
      else
        let key := type.branchKey enclosing
        ((type.tour enclosing entered).andThen fun entered =>
          Schema.tourBranches enclosing (key :: earlier) entered rest).after
            (.branch earlier key)
end

/-- What the walk from the root of a schema meets, in order. -/
def Schema.itinerary (root : Schema) : List Stop :=
  (root.tour "" []).stops

end AvroSchema
