/-!
# Diagnostics

A diagnostic is a message with a severity and the place it is about. A place names a registered
file by its number, with a line and a column in it; a number of zero stands for what is not known.
-/

namespace AvroSchema

/-- A place in a registered file. File numbers, lines and columns start at one, and zero means
unknown. -/
structure Location where
  file : Nat
  line : Nat
  column : Nat
deriving DecidableEq

/-- The place of a type that was not read from any file. -/
def Location.unknown : Location :=
  ⟨0, 0, 0⟩

/-- How grave a diagnostic is. -/
inductive Severity where
  | note
  | warning
  | error
deriving DecidableEq

/-- The word that stands for a severity in printed diagnostics. -/
def Severity.label : Severity → String
  | .note => "note"
  | .warning => "warning"
  | .error => "error"

/-- A message about a place. -/
structure Diagnostic where
  severity : Severity
  message : String
  location : Location
deriving DecidableEq

/-- A diagnostic of severity error. -/
def Diagnostic.ofError (location : Location) (message : String) : Diagnostic :=
  ⟨.error, message, location⟩

end AvroSchema
