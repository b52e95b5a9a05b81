/-!
# Paths in normal form

A path is read component by component, from left to right, and only `/` separates components.
Empty components and `.` stay where they are, `..` goes back to the enclosing directory, and every
other component is a name. What has been read so far is a `Path`: where it starts, how many
directories above its start it leads, and the names below that. `normalise` reads a text as a path
and writes the path down again.
-/

namespace AvroSchema.File

/-- A path that has been followed lexically. Its names are listed innermost first, and
`directory` is set when the last component was no name, so that what was reached is a directory. -/
structure Path where
  rooted : Bool
  climbs : Nat
  names : List (List Char)
  directory : Bool

namespace Path

/-- The path that leads nowhere yet, from the root or from the working directory. -/
def start (rooted : Bool) : Path :=
  ⟨rooted, 0, [], true⟩

/-- Go to the enclosing directory. Above the root there is only the root, and above the start of
any other path lies its parent. -/
def leave (path : Path) : Path :=
  match path.names with
  | _ :: outer => { path with names := outer, directory := true }
  | [] => { path with climbs := if path.rooted then 0 else path.climbs + 1, directory := true }

/-- Go into an entry of the directory reached. -/
def enter (path : Path) (name : List Char) : Path :=
  { path with names := name :: path.names, directory := false }

/-- Follow one more component. -/
def follow (path : Path) (component : List Char) : Path :=
  if component = [] ∨ component = ['.'] then { path with directory := true }
  else if component = ['.', '.'] then path.leave
  else path.enter component

/-- Read a text as a path. -/
def ofText (text : List Char) : Path :=
  (text.splitOn '/').foldl follow (start (text.head? == some '/'))

/-- The components of a path from the outermost one on. -/
def components (path : Path) : List (List Char) :=
  List.replicate path.climbs ['.', '.'] ++ path.names.reverse

/-- Write a path down. A named directory ends in a separator, and the path that leads nowhere is a
single dot, or a single separator at the root. -/
def toText (path : Path) : List Char :=
  let body := ['/'].intercalate path.components
  let ending := if path.directory && !path.names.isEmpty then ['/'] else []
  if path.rooted then '/' :: body ++ ending
  else if path.components.isEmpty then ['.']
  else body ++ ending

/-- The normal form of a path given as a text. The empty text stays as it is. -/
def normalise (text : String) : String :=
  if text = "" then "" else String.ofList (ofText text.toList).toText

end Path

end AvroSchema.File
