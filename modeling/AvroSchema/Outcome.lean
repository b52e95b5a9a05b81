/-!
# Outcomes

An outcome is a success with a value or a failure with a cause. A success that tells nothing more
has the unit value.
-/

namespace AvroSchema

/-- A success with a value, or a failure with a cause. -/
abbrev Outcome (ε α : Type) := Except ε α

namespace Outcome

variable {ε α : Type}

/-- The failure with a cause if there is one, and otherwise the success with a value. -/
def ofFailure? (value : α) : Option ε → Outcome ε α
  | none => .ok value
  | some cause => .error cause

/-- The cause of a failure. -/
def failure? : Outcome ε α → Option ε
  | .ok _ => none
  | .error cause => some cause

/-- Put another value into a success; a failure stays what it is. -/
def overwrite (value : α) : Outcome ε α → Outcome ε α
  | .ok _ => .ok value
  | .error cause => .error cause

end Outcome

end AvroSchema
