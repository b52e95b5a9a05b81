import AvroSchema.Name.Error
import AvroSchema.Name.Grammar
import AvroSchema.Schema.Basic

/-!
# Names of definitions

The name, the explicit namespace and the recorded fullname of a definition have to be dotted names,
and the short name it stands for must not be reserved. The rules are tried in this order, and the
first one broken is the cause for which the definition is refused.
-/

namespace AvroSchema

namespace Definition

/-- The qualified name that a definition stands for inside an enclosing namespace. -/
def resolve (definition : Definition) (enclosing : String) : QualifiedName :=
  .resolve definition.name definition.ns enclosing

/-- The first rule for names that a definition breaks. -/
def nameError? (definition : Definition) : Option NameError :=
  if !Name.isDotted definition.name then some (.malformed definition.name)
  else if definition.ns != "" && !Name.isDotted definition.ns then some (.malformed definition.ns)
  else if !Name.isDotted definition.fullname then some (.malformed definition.fullname)
  else if Name.isReserved (definition.resolve "").short then
    some (.reserved (definition.resolve "").short)
  else none

/-- The namespace that the types inside a definition inherit: the one it stands in itself, or the
enclosing one if its names are refused. -/
def innerNamespace (definition : Definition) (enclosing : String) : String :=
  if definition.nameError?.isSome then enclosing else (definition.resolve enclosing).ns

end Definition

/-- The first rule for names that a type breaks; only named types can break one. -/
def Schema.nameError? (type : Schema) : Option NameError :=
  type.definition?.bind Definition.nameError?

end AvroSchema
