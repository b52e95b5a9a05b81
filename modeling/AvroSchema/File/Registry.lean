import AvroSchema.Diagnostic.Basic
import AvroSchema.File.Path

/-!
# Numbered files

A registry numbers files by their normalised paths, from one on and in the order in which the paths
were first registered. Zero is never the number of a file; it is the answer to a registration for
which no number is left, and then an error is printed to the standard error stream.
-/

namespace AvroSchema.File

/-- The normalised paths of the registered files, in the order of their numbers, together with the
number that the next new file is given, and the numbers by which known paths are found again. -/
structure Registry where
  paths : List String
  next : Nat
  numbers : List (String × Nat)

namespace Registry

/-- The registry without files. -/
def empty : Registry :=
  ⟨[], 1, []⟩

/-- The number of registered files. -/
def size (files : Registry) : Nat :=
  files.paths.length

/-- The last number that a file can be given. -/
def lastNumber : Nat :=
  UInt32.size - 1

/-- Give a new file the next number. -/
def add (files : Registry) (normal : String) : Registry where
  paths := files.paths ++ [normal]
  next := files.next + 1
  numbers := (normal, files.next) :: files.numbers

/-- The number of a path's file, together with the registry that holds it. A path whose normal
form is known keeps its number. Any other is given the next one, and if there is none it is not
registered. -/
def register (files : Registry) (path : String) : Nat × Registry :=
  let normal := Path.normalise path
  match files.numbers.lookup normal with
  | some number => (number, files)
  | none => if lastNumber < files.next then (0, files) else (files.next, files.add normal)

/-- Whether a path is refused: its normal form is not known, and no number is left for it. -/
def refuses (files : Registry) (path : String) : Bool :=
  (files.numbers.lookup (Path.normalise path)).isNone && decide (lastNumber < files.next)

/-- The error that is printed when a path is registered, which is none unless it is refused. -/
def complaint? (files : Registry) (path : String) : Option Diagnostic :=
  if files.refuses path then
    some (.ofError .unknown "source manager exhausted file identifier space")
  else none

/-- The normalised path of a numbered file, and the empty text for any other number. -/
def path (files : Registry) : Nat → String
  | 0 => ""
  | index + 1 => (files.paths[index]?).getD ""

end Registry

end AvroSchema.File
