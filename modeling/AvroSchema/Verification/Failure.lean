import AvroSchema.Schema.Naming

/-!
# What can be wrong with a schema

A `Failure` is a rule that a schema breaks, with what is needed to tell where and how. Its
diagnostic is an error at the place of the definition concerned; failures that concern no
definition have no place.
-/

namespace AvroSchema

/-- A rule that a schema breaks. -/
inductive Failure where
  /-- The names of a definition are refused. -/
  | names (definition : Definition) (cause : NameError)
  /-- The fullname recorded for a definition is not the one it resolves to. -/
  | fullname (definition : Definition) (resolved : String)
  /-- The fullname of a definition belongs to another one. -/
  | duplicateName (definition : Definition) (resolved : String)
  /-- A field of a record has no simple name. -/
  | malformedField (definition : Definition) (name : String)
  /-- A field of a record has the name of an earlier one. -/
  | duplicateField (definition : Definition) (name : String)
  /-- A symbol of an enum is no simple name. -/
  | malformedSymbol (definition : Definition) (symbol : String)
  /-- A symbol of an enum is there already. -/
  | duplicateSymbol (definition : Definition) (symbol : String)
  /-- A field of a record has no type. -/
  | missingField (definition : Definition)
  /-- An array has no items, or a map no values. -/
  | missingElement
  /-- A union lacks a branch that it lists. -/
  | missingBranch
  /-- A union has a union as a branch. -/
  | nestedUnion
  /-- Two branches of a union have the same key. -/
  | duplicateBranch (key : String)
  /-- A primitive type has no primitive token. -/
  | unknownPrimitive (token : String)
deriving DecidableEq

namespace Failure

/-- The code under which a failure is reported. -/
def code : Failure → Code
  | names _ cause => cause.code
  | fullname .. => .fullnameMismatch
  | duplicateName .. => .duplicateName
  | malformedField .. => .malformedField
  | duplicateField .. => .duplicateField
  | malformedSymbol .. => .malformedSymbol
  | duplicateSymbol .. => .duplicateSymbol
  | missingField _ | missingElement | missingBranch => .missingType
  | nestedUnion => .nestedUnion
  | duplicateBranch _ => .duplicateBranch
  | unknownPrimitive _ => .unknownPrimitive

/-- The place of a failure. -/
def location : Failure → Location
  | names definition _ | fullname definition _ | duplicateName definition _
  | malformedField definition _ | duplicateField definition _
  | malformedSymbol definition _ | duplicateSymbol definition _
  | missingField definition => definition.location
  | missingElement | missingBranch | nestedUnion | duplicateBranch _
  | unknownPrimitive _ => .unknown

/-- A failure in words. -/
def message : Failure → String
  | names _ cause => cause.message
  | fullname definition resolved =>
      "fullname " ++ Text.quoted definition.fullname ++ " does not match resolved fullname " ++
        Text.quoted resolved
  | duplicateName _ resolved => "duplicate definition of " ++ Text.quoted resolved
  | malformedField definition name =>
      "invalid field name " ++ Text.quoted name ++ " in record " ++
        Text.quoted definition.fullname
  | duplicateField definition name =>
      "duplicate field " ++ Text.quoted name ++ " in record " ++ Text.quoted definition.fullname
  | malformedSymbol definition symbol =>
      "invalid symbol " ++ Text.quoted symbol ++ " in enum " ++ Text.quoted definition.fullname
  | duplicateSymbol definition symbol =>
      "duplicate symbol " ++ Text.quoted symbol ++ " in enum " ++ Text.quoted definition.fullname
  | missingField _ | missingElement => "type is missing"
  | missingBranch => "union member is missing"
  | nestedUnion => "union may not immediately contain another union"
  | duplicateBranch key => "union contains more than one " ++ Text.quoted key
  | unknownPrimitive token => "unknown primitive type " ++ Text.quoted token

/-- The diagnostic that reports a failure. -/
def diagnostic (failure : Failure) : Diagnostic :=
  failure.code.error failure.location failure.message

end Failure

end AvroSchema
