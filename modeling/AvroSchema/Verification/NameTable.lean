import AvroSchema.Schema.Basic

/-!
# Defined names

A name table holds the named types that a verification has accepted under their fullnames, in the
order in which they were defined. A fullname belongs to the type that was first defined under it.
-/

namespace AvroSchema

/-- The named types defined so far, each with its fullname, in the order of their definition. -/
structure NameTable where
  entries : List (String × Schema)

namespace NameTable

/-- The table without names. -/
def empty : NameTable :=
  ⟨[]⟩

/-- The defined fullnames, in the order of their definition. -/
def fullnames (names : NameTable) : List String :=
  names.entries.map Prod.fst

/-- Whether a fullname is taken. -/
def defines (names : NameTable) (fullname : String) : Bool :=
  names.entries.any fun entry => entry.1 == fullname

/-- A fullname is taken if and only if it is one of the defined fullnames. -/
theorem defines_iff {names : NameTable} {fullname : String} :
    names.defines fullname = true ↔ fullname ∈ names.fullnames := by
  simp [defines, fullnames]

/-- The type defined under a fullname. -/
def find? (names : NameTable) (fullname : String) : Option Schema :=
  names.entries.lookup fullname

/-- The entries in the order of their fullnames, which are compared character by character. -/
def sorted (names : NameTable) : List (String × Schema) :=
  names.entries.mergeSort fun first second => decide (first.1 ≤ second.1)

end NameTable

end AvroSchema
