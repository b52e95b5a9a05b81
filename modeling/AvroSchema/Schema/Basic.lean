import AvroSchema.Diagnostic.Basic
import AvroSchema.Name.Qualified

/-!
# Schemas

A schema is a primitive type, a definition of a named type (record, enum or fixed), or an array, map
or union of further types. Types may be shared: every node of the type graph has an identity, and
two occurrences of a type are one node if and only if their identities agree. A place where a type
is due may be left empty, which is for a verification to report.

Nothing about a schema is checked here. A definition carries the fullname that it was given when it
was made, which need not be the one that it resolves to where it stands.
-/

namespace AvroSchema

/-- The identity of a node of the type graph. -/
abbrev NodeId := Nat

/-- The name of a named type as it was written, with its explicit namespace if it has one, the
fullname recorded for it, and its place. -/
structure Definition where
  name : String
  ns : String
  fullname : String
  location : Location
deriving DecidableEq

/-- The definition made for a name inside an enclosing namespace: it records the fullname that the
name resolves to there. -/
def Definition.declare (name ns enclosing : String) (location : Location) : Definition :=
  ⟨name, ns, (QualifiedName.resolve name ns enclosing).fullname, location⟩

mutual
/-- A node of the type graph with all that lies below it. -/
inductive Schema where
  | primitive (node : NodeId) (token : String)
  | record (node : NodeId) (definition : Definition) (fields : List Field)
  | enum (node : NodeId) (definition : Definition) (symbols : List String)
  | fixed (node : NodeId) (definition : Definition) (size : Nat)
  | array (node : NodeId) (items : Option Schema)
  | map (node : NodeId) (values : Option Schema)
  | union (node : NodeId) (branches : List (Option Schema))

/-- A field of a record; its type may be missing. -/
structure Field where
  name : String
  type : Option Schema
end

/-- The kinds of types. -/
inductive Kind where
  | primitive
  | record
  | enum
  | fixed
  | array
  | map
  | union
deriving DecidableEq

/-- The word for a kind. -/
def Kind.label : Kind → String
  | .primitive => "primitive"
  | .record => "record"
  | .enum => "enum"
  | .fixed => "fixed"
  | .array => "array"
  | .map => "map"
  | .union => "union"

namespace Schema

/-- The identity of a type's node. -/
def node : Schema → NodeId
  | primitive node _ | record node _ _ | enum node _ _ | fixed node _ _
  | array node _ | map node _ | union node _ => node

/-- The kind of a type. -/
def kind : Schema → Kind
  | primitive .. => .primitive
  | record .. => .record
  | enum .. => .enum
  | fixed .. => .fixed
  | array .. => .array
  | map .. => .map
  | union .. => .union

/-- The definition of a named type. -/
def definition? : Schema → Option Definition
  | record _ definition _ | enum _ definition _ | fixed _ definition _ => some definition
  | primitive .. | array .. | map .. | union .. => none

/-- Whether a type is a record, an enum or a fixed. -/
def isNamed (type : Schema) : Bool :=
  type.definition?.isSome

/-- The name that a type is written with: its own if it is named, its token otherwise. -/
def name : Schema → String
  | record _ definition _ | enum _ definition _ | fixed _ definition _ => definition.name
  | primitive _ token => token
  | array .. => Kind.array.label
  | map .. => Kind.map.label
  | union .. => Kind.union.label

/-- The explicit namespace of a type, empty for all but named types. -/
def ns (type : Schema) : String :=
  (type.definition?.map Definition.ns).getD ""

/-- The fullname recorded for a type; an unnamed type has its token as its fullname. -/
def fullname (type : Schema) : String :=
  (type.definition?.map Definition.fullname).getD type.name

/-- The place of a type, unknown for all but named types. -/
def location (type : Schema) : Location :=
  (type.definition?.map Definition.location).getD .unknown

/-- The qualified name that a type stands for inside an enclosing namespace. -/
def resolve (type : Schema) (enclosing : String) : QualifiedName :=
  .resolve type.name type.ns enclosing

/-- What tells a type apart from the other branches of a union inside an enclosing namespace: the
fullname it resolves to if it is named, its token otherwise. -/
def branchKey (type : Schema) (enclosing : String) : String :=
  if type.isNamed then (type.resolve enclosing).fullname else type.name

end Schema

end AvroSchema
