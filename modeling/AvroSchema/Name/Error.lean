import AvroSchema.Diagnostic.Code
import AvroSchema.Text.Quoted

/-!
# What can be wrong with the names of a definition

A definition is refused when a text that should be a dotted name is none, or when its short name is
the token of a built-in type.
-/

namespace AvroSchema

/-- The cause for which the names of a definition are refused. -/
inductive NameError where
  /-- The text is not a dotted name. -/
  | malformed (text : String)
  /-- The short name is the token of a built-in type. -/
  | reserved (short : String)
deriving DecidableEq

namespace NameError

/-- The code under which the cause is reported. -/
def code : NameError → Code
  | malformed _ => .malformedName
  | reserved _ => .reservedName

/-- The cause in words. -/
def message : NameError → String
  | malformed text => "invalid name " ++ Text.quoted text
  | reserved short => "reserved name " ++ Text.quoted short ++ " used for type name"

/-- The cause reported as an error at a place. -/
def diagnostic (cause : NameError) (location : Location) : Diagnostic :=
  cause.code.error location cause.message

end NameError

end AvroSchema
