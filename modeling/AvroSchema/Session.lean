import AvroSchema.Diagnostic.Printer
import AvroSchema.Verification.Verifier

/-!
# Sessions

A session keeps the files that locations refer to, a log of diagnostics, and a verifier that is used
until it is replaced. Commands work on the session one after the other. A run of the verifier
appends its diagnostics to the log, whatever the log holds already, and leaves in the verifier what
it has found.
-/

namespace AvroSchema

/-- What is kept from one command to the next. -/
structure Session where
  files : File.Registry
  log : List Diagnostic
  verifier : Verifier

/-- The session at the start: no files, no diagnostics, a verifier with default options. -/
def Session.start : Session :=
  ⟨.empty, [], .fresh {}⟩

/-- What a session can be told to do. -/
inductive Command where
  /-- Register a file. -/
  | register (path : String)
  /-- Tell the path of a numbered file. -/
  | path (file : Nat)
  /-- Start over with a new verifier. -/
  | renew (options : Options)
  /-- Run the verifier on a schema and log what is wrong with it. -/
  | verify (root : Schema)
  /-- Check a schema aside from the session, with options of its own. -/
  | check (root : Schema) (options : Options)
  /-- Log a diagnostic. -/
  | report (diagnostic : Diagnostic)
  /-- Empty the log. -/
  | clear
  /-- Tell the names found last. -/
  | names
  /-- Print the log, with or without the places in files. -/
  | print (located : Bool)

/-- What a session answers to a command. -/
inductive Answer where
  | file (number : Nat) (path : String) (count : Nat)
  | path (path : String)
  | names (names : NameTable)
  | verified (outcome : Outcome Diagnostic Unit) (log : List Diagnostic) (names : NameTable)
      (trace : TraceOutput)
  | checked (outcome : Outcome Diagnostic Unit) (trace : TraceOutput)
  | log (log : List Diagnostic)
  | printed (text : String)

namespace Session

/-- Carry out a command. -/
def step (session : Session) : Command → Answer × Session
  | .register path =>
      let (number, files) := session.files.register path
      (.file number (files.path number) files.size, { session with files })
  | .path file => (.path (session.files.path file), session)
  | .renew options =>
      let verifier := Verifier.fresh options
      (.names verifier.names, { session with verifier })
  | .verify root =>
      let result := session.verifier.run session.log root
      (.verified result.outcome result.log result.verifier.names
          (TraceTarget.stream.output result.trace),
        { session with log := result.log, verifier := result.verifier })
  | .check root options =>
      let report := root.check options
      (.checked report.outcome (TraceTarget.standardError.output report.trace), session)
  | .report diagnostic =>
      let log := session.log ++ [diagnostic]
      (.log log, { session with log })
  | .clear => (.log [], { session with log := [] })
  | .names => (.names session.verifier.names, session)
  | .print located =>
      let files? := if located then some session.files else none
      (.printed (String.join (session.log.map (Diagnostic.print files?))), session)

/-- Carry out commands one after the other. -/
def run (session : Session) : List Command → List Answer × Session
  | [] => ([], session)
  | command :: rest =>
      let (answer, next) := session.step command
      let (answers, final) := next.run rest
      (answer :: answers, final)

end Session

end AvroSchema
