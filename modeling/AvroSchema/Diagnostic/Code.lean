import AvroSchema.Diagnostic.Basic

/-!
# Codes of schema diagnostics

Every rule that a schema can break has a code, and the code's label opens the message of each
diagnostic about that rule. The label is all that a reader of the message sees of the code.
-/

namespace AvroSchema

/-- The rule that a diagnostic is about. -/
inductive Code where
  | unclassified
  | malformedName
  | reservedName
  | fullnameMismatch
  | duplicateName
  | malformedField
  | duplicateField
  | malformedSymbol
  | duplicateSymbol
  | nestedUnion
  | duplicateBranch
  | missingType
  | unknownPrimitive
deriving DecidableEq

namespace Code

/-- The text that opens the messages of a code. The unclassified code has the empty label. -/
def label : Code → String
  | unclassified => ""
  | malformedName => "verify.name.invalid"
  | reservedName => "verify.name.reserved"
  | fullnameMismatch => "verify.name.fullname"
  | duplicateName => "verify.name.duplicate"
  | malformedField => "verify.field.invalid"
  | duplicateField => "verify.field.duplicate"
  | malformedSymbol => "verify.enum.invalid"
  | duplicateSymbol => "verify.enum.duplicate"
  | nestedUnion => "verify.union.nested"
  | duplicateBranch => "verify.union.duplicate"
  | missingType => "verify.type.missing"
  | unknownPrimitive => "verify.type.primitive"

/-- A message with its code's label in front. Without a label the message stands alone, and
without a message the label does. -/
def labelled (code : Code) (message : String) : String :=
  if code.label = "" then message
  else if message = "" then code.label
  else code.label ++ ": " ++ message

/-- A diagnostic whose message opens with the label of its code. -/
def diagnostic (code : Code) (severity : Severity) (location : Location) (message : String) :
    Diagnostic :=
  ⟨severity, code.labelled message, location⟩

/-- An error whose message opens with the label of its code. -/
def error (code : Code) (location : Location) (message : String) : Diagnostic :=
  code.diagnostic .error location message

end Code

end AvroSchema
