import AvroSchema.Schema.Basic

/-!
# Traces

A trace has one line for each named type that a verification meets for the first time with
acceptable names. The line shows how the type was written and what it was resolved to. Traces are
off or written to a stream: the one that was given, or the standard error stream if none was.
-/

namespace AvroSchema

/-- How a named type was written, where it was met, and the fullname it resolves to there. -/
structure TraceEntry where
  kind : Kind
  fullname : String
  name : String
  ns : String
  enclosing : String
deriving DecidableEq

namespace TraceEntry

/-- The entry for a type that is met inside an enclosing namespace and resolves to a fullname. -/
def ofType (type : Schema) (enclosing fullname : String) : TraceEntry :=
  ⟨type.kind, fullname, type.name, type.ns, enclosing⟩

/-- The line that shows an entry. -/
def line (entry : TraceEntry) : String :=
  "[NAMES] " ++ entry.kind.label ++ " " ++ entry.fullname ++ " (name=" ++ entry.name ++ " ns=" ++
    entry.ns ++ " enclosing=" ++ entry.enclosing ++ ")\n"

/-- The lines of several entries, one after the other. -/
def lines (entries : List TraceEntry) : String :=
  String.join (entries.map line)

end TraceEntry

/-- Where the lines of a trace go. -/
inductive TraceTarget where
  | stream
  | standardError
deriving DecidableEq

/-- The texts that end up on the given stream and on the standard error stream. -/
structure TraceOutput where
  stream : String
  standardError : String
deriving DecidableEq

/-- The output of a trace whose lines go to one of the two streams. -/
def TraceTarget.output (target : TraceTarget) (entries : List TraceEntry) : TraceOutput :=
  match target with
  | .stream => ⟨TraceEntry.lines entries, ""⟩
  | .standardError => ⟨"", TraceEntry.lines entries⟩

/-- Whether a trace is written at all. -/
inductive TraceMode where
  | off
  | names
deriving DecidableEq

namespace TraceMode

/-- Whether the mode lets anything through. -/
def enabled : TraceMode → Bool
  | off => false
  | names => true

/-- The entries that a mode lets through: all of them or none. -/
def select (mode : TraceMode) (entries : List TraceEntry) : List TraceEntry :=
  if mode.enabled then entries else []

end TraceMode

end AvroSchema
