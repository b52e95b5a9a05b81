/-!
# The grammar of names

A simple name is an ASCII letter or underscore followed by ASCII letters, digits and underscores.
A dotted name is one or more simple names joined by single dots. The tokens of the built-in types
are reserved: no named type may take one as its short name.
-/

namespace AvroSchema.Name

/-- A simple name starts with an ASCII letter or an underscore. -/
def startsName (c : Char) : Bool :=
  c.isAlpha || c == '_'

/-- A simple name goes on with ASCII letters, ASCII digits and underscores. -/
def continuesName (c : Char) : Bool :=
  startsName c || c.isDigit

/-- Whether the characters spell a simple name. -/
def spellsSimple : List Char → Bool
  | [] => false
  | c :: rest => startsName c && rest.all continuesName

/-- Whether a text is a simple name. -/
def isSimple (text : String) : Bool :=
  spellsSimple text.toList

/-- Whether a text is a dotted name: every piece between its dots is a simple name. -/
def isDotted (text : String) : Bool :=
  (text.toList.splitOn '.').all spellsSimple

/-- The tokens of the primitive types. -/
def primitiveTokens : List String :=
  ["null", "boolean", "int", "long", "float", "double", "bytes", "string"]

/-- The tokens of the types that hold other types without a name of their own. -/
def containerTokens : List String :=
  ["array", "map", "union"]

/-- Whether a text is the token of a primitive type. -/
def isPrimitive (text : String) : Bool :=
  primitiveTokens.contains text

/-- Whether a short name is refused to named types because a built-in type has it as its token. -/
def isReserved (short : String) : Bool :=
  (primitiveTokens ++ containerTokens).contains short

end AvroSchema.Name
