import AvroSchema.Text.LastSeparator

/-!
# Short names and their namespaces

A qualified name is a short name together with the namespace it lives in, which may be empty.
`resolve` finds the qualified name that a definition stands for, and `fullname` writes it down.
Nothing here asks for grammatical names: the functions are total on all texts.
-/

namespace AvroSchema

/-- A short name and the namespace it lives in; the empty text is the empty namespace. -/
structure QualifiedName where
  short : String
  ns : String
deriving DecidableEq

namespace QualifiedName

/-- A dotted text cut at its last dot; a text without a dot is not qualified. -/
def ofDotted? (text : String) : Option QualifiedName :=
  (Text.splitLast? '.' text.toList).map fun (before, after) =>
    ⟨String.ofList after, String.ofList before⟩

/-- The name that a definition stands for. A dotted name qualifies itself; any other name takes
its explicit namespace, and the enclosing namespace if it has none. -/
def resolve (name ns enclosing : String) : QualifiedName :=
  (ofDotted? name).getD ⟨name, if ns = "" then enclosing else ns⟩

/-- The namespace and the short name joined by a dot, or the short name alone when the namespace
is empty. -/
def fullname (name : QualifiedName) : String :=
  if name.ns = "" then name.short else name.ns ++ "." ++ name.short

end QualifiedName

end AvroSchema
