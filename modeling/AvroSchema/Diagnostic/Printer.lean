import AvroSchema.Diagnostic.Basic
import AvroSchema.File.Registry

/-!
# Printed diagnostics

A diagnostic is printed on one line, as its severity and its message. The path of its file goes in
front if the file is known, followed by the line if that is known, and by the column if the line
and the column both are.
-/

namespace AvroSchema

/-- The line and the column as far as they are known; a column counts only within a line. -/
def Location.position (location : Location) : String :=
  if location.line = 0 then ""
  else if location.column = 0 then ":" ++ location.line.repr
  else ":" ++ location.line.repr ++ ":" ++ location.column.repr

/-- The place in front of a printed message, empty if the file is unknown or has no path. -/
def Location.heading (files : File.Registry) (location : Location) : String :=
  let path := files.path location.file
  if path = "" then "" else path ++ location.position ++ ": "

/-- A diagnostic on a line of its own, with its place if files are given to look it up in. -/
def Diagnostic.print (files? : Option File.Registry) (diagnostic : Diagnostic) : String :=
  let heading :=
    match files? with
    | some files => diagnostic.location.heading files
    | none => ""
  heading ++ diagnostic.severity.label ++ ": " ++ diagnostic.message ++ "\n"

end AvroSchema
