import AvroSchema.Proofs.Codes
import AvroSchema.Proofs.GrammaticalNames
import AvroSchema.Proofs.Runs

/-!
# Traces of runs

A run with the trace on does the same as one with the trace off, and writes one line for each named
type with acceptable names that it visits. Nothing is escaped in these lines. They can be told apart
and read back since all texts in them consist of dotted names (`TraceEntry.Grammatical`), even if
other parts of the schema are malformed: every line ends where it should
(`Grammatical.exists_body`), and two traces that are written alike are the same
(`TraceEntry.lines_injective`). The main statement is `Verifier.traces_faithful`.
-/

namespace AvroSchema

/-- The word for a kind is a name. -/
theorem Kind.is_dotted_label (kind : Kind) : Name.isDotted kind.label := by
  cases kind <;> decide

/-- Different kinds have different words. -/
theorem Kind.label_inj {first second : Kind} (h : first.label = second.label) :
    first = second := by
  cases first <;> cases second <;> simp_all [label]

namespace TraceEntry

/-- An entry is grammatical if its names are dotted names and its namespaces are namespaces. -/
structure Grammatical (entry : TraceEntry) : Prop where
  fullname : Name.isDotted entry.fullname
  name : Name.isDotted entry.name
  ns : Name.IsNamespace entry.ns
  enclosing : Name.IsNamespace entry.enclosing

/-- The characters of a line, with the text of the entry up to the characters that end its parts. -/
theorem to_list_line (entry : TraceEntry) :
    entry.line.toList = "[NAMES] ".toList ++ (entry.kind.label.toList ++ ' ' ::
      (entry.fullname.toList ++ ' ' :: ("(name=".toList ++ (entry.name.toList ++ ' ' ::
        ("ns=".toList ++ (entry.ns.toList ++ ' ' :: ("enclosing=".toList ++
          (entry.enclosing.toList ++ ')' :: ['\n'])))))))) := by
  unfold line
  simp

/-- The lines of a trace begin with the line of its first entry. -/
theorem lines_cons (entry : TraceEntry) (rest : List TraceEntry) :
    lines (entry :: rest) = entry.line ++ lines rest := by
  rw [lines, List.map_cons, String.join_cons]
  rfl

/-- Two texts that are cut off at the same character, which neither of them has, are the same if
they are read from the same characters. -/
theorem text_eq_of_append_eq {text other : String} {separator : Char} {rest more : List Char}
    (habsent : separator ∉ text.toList) (habsentOther : separator ∉ other.toList)
    (h : text.toList ++ separator :: rest = other.toList ++ separator :: more) :
    text = other ∧ rest = more := by
  have hsame : text.toList = other.toList :=
    eq_of_append_cons_prefix habsent habsentOther ⟨[], by rw [List.append_nil, h]⟩
  rw [hsame] at h
  exact ⟨String.toList_injective hsame, (List.cons.inj (List.append_cancel_left h)).2⟩

namespace Grammatical

variable {entry other : TraceEntry}

/-- A line consists of a body without newlines, and a newline. -/
theorem exists_body (h : entry.Grammatical) :
    ∃ body : String, entry.line = body ++ "\n" ∧ '\n' ∉ body.toList := by
  have hforeign : Name.IsForeign '\n' := by decide
  refine ⟨"[NAMES] " ++ entry.kind.label ++ " " ++ entry.fullname ++ " (name=" ++ entry.name ++
    " ns=" ++ entry.ns ++ " enclosing=" ++ entry.enclosing ++ ")", ?_, ?_⟩
  · apply String.toList_injective
    unfold line
    simp
  · simp [Name.not_mem_of_is_dotted entry.kind.is_dotted_label hforeign,
      Name.not_mem_of_is_dotted h.fullname hforeign, Name.not_mem_of_is_dotted h.name hforeign,
      Name.not_mem_of_is_namespace h.ns hforeign, Name.not_mem_of_is_namespace h.enclosing hforeign]

/-- If two texts begin with the lines of grammatical entries and are the same, then the entries are
the same, and so is what follows them. -/
theorem line_append_inj (h : entry.Grammatical) (hother : other.Grammatical)
    {rest more : List Char} (hsame : entry.line.toList ++ rest = other.line.toList ++ more) :
    entry = other ∧ rest = more := by
  have hspace : Name.IsForeign ' ' := by decide
  have hparenthesis : Name.IsForeign ')' := by decide
  simp only [to_list_line, List.append_assoc, List.cons_append, List.append_cancel_left_eq] at hsame
  obtain ⟨hsameKind, hsame⟩ := text_eq_of_append_eq
    (Name.not_mem_of_is_dotted entry.kind.is_dotted_label hspace)
    (Name.not_mem_of_is_dotted other.kind.is_dotted_label hspace) hsame
  obtain ⟨hsameFullname, hsame⟩ := text_eq_of_append_eq
    (Name.not_mem_of_is_dotted h.fullname hspace) (Name.not_mem_of_is_dotted hother.fullname hspace)
    hsame
  obtain ⟨hsameName, hsame⟩ := text_eq_of_append_eq (Name.not_mem_of_is_dotted h.name hspace)
    (Name.not_mem_of_is_dotted hother.name hspace) (List.append_cancel_left hsame)
  obtain ⟨hsameNs, hsame⟩ := text_eq_of_append_eq (Name.not_mem_of_is_namespace h.ns hspace)
    (Name.not_mem_of_is_namespace hother.ns hspace) (List.append_cancel_left hsame)
  obtain ⟨hsameEnclosing, hsame⟩ := text_eq_of_append_eq
    (Name.not_mem_of_is_namespace h.enclosing hparenthesis)
    (Name.not_mem_of_is_namespace hother.enclosing hparenthesis) (List.append_cancel_left hsame)
  have hsameKind := Kind.label_inj hsameKind
  refine ⟨?_, (List.cons.inj hsame).2⟩
  cases entry
  cases other
  simp_all

end Grammatical

/-- Two traces of grammatical entries that are written as the same text are the same. -/
theorem lines_injective {first second : List TraceEntry}
    (hgrammatical : ∀ entry ∈ first, entry.Grammatical)
    (halsoGrammatical : ∀ entry ∈ second, entry.Grammatical)
    (h : lines first = lines second) : first = second := by
  -- No line is empty, so no trace is written as a proper part of another one's text.
  have hnonempty : ∀ (entry : TraceEntry) (rest : List TraceEntry), lines (entry :: rest) ≠ "" := by
    intro entry rest
    rw [lines_cons]
    unfold line
    simp
  induction first generalizing second with
  | nil =>
      cases second with
      | nil => rfl
      | cons other others => exact absurd h.symm (hnonempty other others)
  | cons entry rest ih =>
      cases second with
      | nil => exact absurd h (hnonempty entry rest)
      | cons other others =>
          rw [List.forall_mem_cons] at hgrammatical halsoGrammatical
          have hwritten := congrArg String.toList h
          rw [lines_cons, lines_cons, String.toList_append, String.toList_append] at hwritten
          obtain ⟨rfl, hsameRest⟩ := hgrammatical.1.line_append_inj halsoGrammatical.1 hwritten
          rw [ih hgrammatical.2 halsoGrammatical.2 (String.toList_injective hsameRest)]

end TraceEntry

/-- The output of a trace shows its text, wherever it goes. -/
theorem TraceTarget.lines_eq_of_output_eq {target : TraceTarget} {first second : List TraceEntry}
    (h : target.output first = target.output second) :
    TraceEntry.lines first = TraceEntry.lines second := by
  cases target with
  | stream => exact congrArg TraceOutput.stream h
  | standardError => exact congrArg TraceOutput.standardError h

/-- The line of trace about a visit. -/
def Arrival.traceEntry (visit : Arrival) : TraceEntry :=
  .ofType visit.type visit.enclosing (visit.type.resolve visit.enclosing).fullname

/-- An arrival is traced if and only if it is at a definition with acceptable names. -/
theorem Arrival.entry_eq_some_iff {arrival : Arrival} {entry : TraceEntry} :
    arrival.entry? = some entry ↔
      arrival.type.isNamed ∧ arrival.type.nameError? = none ∧ entry = arrival.traceEntry := by
  unfold entry?
  rw [Option.map_eq_some_iff]
  constructor
  · rintro ⟨registration, hasked, rfl⟩
    obtain ⟨definition, h, haccepted, rfl⟩ := registration_eq_some_iff.1 hasked
    refine ⟨Schema.is_named_of_definition h, ?_, ?_⟩
    · rw [Schema.name_error_of_definition h, haccepted]
    · rw [traceEntry, Schema.resolve_of_definition h]
  · rintro ⟨hnamed, haccepted, rfl⟩
    obtain ⟨definition, h⟩ := Option.isSome_iff_exists.1 hnamed
    rw [Schema.name_error_of_definition h] at haccepted
    refine ⟨_, registration_of_accepted h haccepted, ?_⟩
    rw [traceEntry, Schema.resolve_of_definition h]

namespace Schema

variable {root : Schema}

/-- The first visits to the named types below a root that have acceptable names, in order. -/
def acceptedVisits (root : Schema) : List Arrival :=
  root.firstVisits.filter fun visit => visit.type.nameError? = none

/-- What is traced of a whole walk are the first visits to types with acceptable names. -/
theorem filter_map_entry_arrivals (root : Schema) :
    (root.arrivals Definition.innerNamespace).filterMap Arrival.entry? =
      root.acceptedVisits.map Arrival.traceEntry := by
  rw [acceptedVisits, first_visits_eq, Arrival.atNamed, List.filter_filter]
  induction root.arrivals Definition.innerNamespace with
  | nil => rfl
  | cons arrival rest ih =>
      rw [List.filterMap_cons, List.filter_cons, ih]
      cases htraced : arrival.entry? with
      | some entry =>
          obtain ⟨hnamed, haccepted, rfl⟩ := Arrival.entry_eq_some_iff.1 htraced
          rw [if_pos (by simp [hnamed, haccepted]), List.map_cons]
      | none =>
          have huntraced : ¬ (arrival.type.isNamed ∧ arrival.type.nameError? = none) := by
            rintro ⟨hnamed, haccepted⟩
            rw [Arrival.entry_eq_some_iff.2 ⟨hnamed, haccepted, rfl⟩] at htraced
            cases htraced
          rw [if_neg (by simpa [and_comm] using huntraced)]

/-- No named node has two first visits. -/
theorem nodup_nodes_accepted_visits (root : Schema) :
    (root.acceptedVisits.map fun visit => visit.type.node).Nodup :=
  (List.filter_sublist.map _).nodup (nodup_keys_firsts _ _)

/-- The types below a root that have acceptable names are the ones with such a visit. -/
theorem Coherent.exists_accepted_visit_iff (hcoherent : root.Coherent) (type : Schema) :
    (∃ visit ∈ root.acceptedVisits, visit.type = type) ↔
      type ∈ root.definitions ∧ type.nameError? = none := by
  simp only [acceptedVisits, first_visits_eq, Arrival.atNamed, List.mem_filter]
  constructor
  · rintro ⟨visit, ⟨⟨harrival, hnamed⟩, haccepted⟩, rfl⟩
    exact ⟨⟨reaches_of_mem_arrivals harrival, hnamed⟩, of_decide_eq_true haccepted⟩
  · rintro ⟨⟨hbelow, hnamed⟩, haccepted⟩
    obtain ⟨visit, harrival, rfl⟩ :=
      @Coherent.exists_arrival_of_reaches Definition.innerNamespace _ _ hcoherent hbelow
    exact ⟨visit, ⟨⟨harrival, hnamed⟩, decide_eq_true haccepted⟩, rfl⟩

/-- The entries of a trace are grammatical, even if the schema is not. -/
theorem grammatical_of_mem_trace {options : Options} {entry : TraceEntry}
    (h : entry ∈ (root.verify options).trace) : entry.Grammatical := by
  have htraced := mem_entries_of_mem_trace options root h
  rw [filter_map_entry_arrivals] at htraced
  obtain ⟨visit, hisAccepted, rfl⟩ := List.mem_map.1 htraced
  obtain ⟨hfirst, haccepted⟩ := List.mem_filter.1 hisAccepted
  obtain ⟨hvisit, hnamed⟩ := mem_visits_of_mem_first_visits hfirst
  have hinherited := is_namespace_of_mem_visits hvisit
  obtain ⟨definition, h⟩ := Option.isSome_iff_exists.1 hnamed
  have hnameError := of_decide_eq_true haccepted
  rw [name_error_of_definition h] at hnameError
  obtain ⟨hdotted, hexplicit, -, -⟩ :=
    (definition.name_error_eq_none_iff visit.enclosing).1 hnameError
  constructor
  · show Name.isDotted (visit.type.resolve visit.enclosing).fullname
    rw [resolve_of_definition h]
    exact QualifiedName.is_dotted_fullname_resolve hdotted hexplicit hinherited
  · show Name.isDotted visit.type.name
    rw [name_of_definition h]
    exact hdotted
  · show Name.IsNamespace visit.type.ns
    rw [ns_of_definition h]
    exact hexplicit
  · exact hinherited

/-- The report with the trace off is the report with the trace on, without the trace. -/
theorem verify_trace_off (failFast : Bool) (root : Schema) :
    root.verify ⟨false, failFast⟩ = { root.verify ⟨true, failFast⟩ with trace := [] } := by
  rw [verify_eq, verify_eq]
  rfl

end Schema

namespace Verifier

/-- The trace of a run that goes through a whole schema with the trace on. -/
theorem trace_run (root : Schema) (log : List Diagnostic) :
    ((fresh ⟨true, false⟩).run log root).trace =
      root.acceptedVisits.map Arrival.traceEntry := by
  obtain ⟨entered, hran, -⟩ := run_eq (fresh ⟨true, false⟩) log root
  rw [hran, ← root.filter_map_entry_arrivals]
  exact root.trace_verify true

/-- The text of such a trace is the lines about the accepted visits, one after the other. -/
theorem output_run (root : Schema) (log : List Diagnostic) (target : TraceTarget) :
    let text := String.join (root.acceptedVisits.map fun visit => visit.traceEntry.line)
    target.output ((fresh ⟨true, false⟩).run log root).trace =
      match target with
      | .stream => ⟨text, ""⟩
      | .standardError => ⟨"", text⟩ := by
  intro text
  have hwritten : TraceEntry.lines (root.acceptedVisits.map Arrival.traceEntry) = text := by
    rw [TraceEntry.lines, List.map_map]
    rfl
  rw [trace_run, ← hwritten]
  rfl

/-- The entries of the trace of any run are grammatical. -/
theorem grammatical_of_mem_trace_run {options : Options} {root : Schema} {log : List Diagnostic}
    {entry : TraceEntry} (h : entry ∈ ((fresh options).run log root).trace) :
    entry.Grammatical := by
  obtain ⟨entered, hran, -⟩ := run_eq (fresh options) log root
  rw [hran] at h
  exact Schema.grammatical_of_mem_trace h

/-- A run with the trace off does the same as one with the trace on, but writes nothing. -/
theorem run_trace_off (failFast : Bool) (root : Schema) (log : List Diagnostic)
    (target : TraceTarget) :
    let traced := (fresh ⟨true, failFast⟩).run log root
    let silent := (fresh ⟨false, failFast⟩).run log root
    traced.outcome = silent.outcome ∧ traced.log = silent.log ∧
      traced.verifier.names = silent.verifier.names ∧ target.output silent.trace = ⟨"", ""⟩ := by
  obtain ⟨entered, htraced, -⟩ := run_eq (fresh ⟨true, failFast⟩) log root
  obtain ⟨otherEntered, hsilent, -⟩ := run_eq (fresh ⟨false, failFast⟩) log root
  dsimp only
  rw [htraced, hsilent]
  simp only [fresh, Schema.verify_trace_off, true_and]
  cases target with
  | stream => rfl
  | standardError => rfl

/-- Traces are faithful and do not interfere. Whether the trace is on makes no difference to the
outcome of a run, to what it reports and to the names that it leaves behind, and with the trace off
nothing is written. With the trace on, a run that goes through a whole schema writes one line for
each named type with acceptable names below the root, when it visits the type first. The line shows
the kind of the type, the fullname it resolves to there, its name and its namespace as they were
written, and the enclosing namespace. What is written are these lines, one after the other, and
nothing else. In any run, every line has one newline, which is its last character, and no two traces
have the same text. -/
theorem traces_faithful (root : Schema) (log : List Diagnostic) (target : TraceTarget) :
    (∀ failFast,
      let traced := (fresh ⟨true, failFast⟩).run log root
      let silent := (fresh ⟨false, failFast⟩).run log root
      traced.outcome = silent.outcome ∧ traced.log = silent.log ∧
        traced.verifier.names = silent.verifier.names ∧
        target.output silent.trace = ⟨"", ""⟩) ∧
    (((fresh ⟨true, false⟩).run log root).trace =
        root.acceptedVisits.map (fun visit =>
          { kind := visit.type.kind
            fullname := (visit.type.resolve visit.enclosing).fullname
            name := visit.type.name
            ns := visit.type.ns
            enclosing := visit.enclosing }) ∧
      (let text := String.join (root.acceptedVisits.map fun visit => visit.traceEntry.line)
      target.output ((fresh ⟨true, false⟩).run log root).trace =
        match target with
        | .stream => ⟨text, ""⟩
        | .standardError => ⟨"", text⟩) ∧
      (root.acceptedVisits.map fun visit => visit.type.node).Nodup ∧
      (root.Coherent → ∀ type, (∃ visit ∈ root.acceptedVisits, visit.type = type) ↔
        type ∈ root.definitions ∧ type.nameError? = none)) ∧
    (∀ failFast, ∀ entry ∈ ((fresh ⟨true, failFast⟩).run log root).trace,
      ∃ body : String, entry.line = body ++ "\n" ∧ '\n' ∉ body.toList) ∧
    ∀ (failFast : Bool) (other : Schema) (options : Options) (otherLog : List Diagnostic),
      let traced := (fresh ⟨true, failFast⟩).run log root
      let otherRun := (fresh options).run otherLog other
      target.output traced.trace = target.output otherRun.trace →
        traced.trace = otherRun.trace := by
  refine ⟨fun failFast => run_trace_off failFast root log target,
    ⟨trace_run root log, output_run root log target, root.nodup_nodes_accepted_visits,
      fun hcoherent => hcoherent.exists_accepted_visit_iff⟩, ?_, ?_⟩
  · intro failFast entry h
    exact (grammatical_of_mem_trace_run h).exists_body
  · intro failFast other options otherLog traced otherRun h
    exact TraceEntry.lines_injective (fun _ => grammatical_of_mem_trace_run)
      (fun _ => grammatical_of_mem_trace_run) (TraceTarget.lines_eq_of_output_eq h)

/-- A fixed that is used twice is traced once, inside the namespace that it is visited in first. A
run that fails fast writes the same text about the record that uses it, and so has the same
trace. -/
theorem traces_faithful_segment :
    Schema.segment.Coherent ∧
      (∃ visit ∈ Schema.segment.acceptedVisits, visit.type = Schema.point) ∧
      (⟨.fixed, "geo.Point", "Point", "", "geo"⟩ : TraceEntry) ∈
        ((fresh ⟨true, false⟩).run [] Schema.segment).trace ∧
      TraceTarget.standardError.output ((fresh ⟨true, false⟩).run [] Schema.segment).trace =
        ⟨"", "[NAMES] record geo.Segment (name=Segment ns=geo enclosing=)\n" ++
          "[NAMES] fixed geo.Point (name=Point ns= enclosing=geo)\n"⟩ ∧
      (∃ body : String, (⟨.fixed, "geo.Point", "Point", "", "geo"⟩ : TraceEntry).line =
        body ++ "\n" ∧ '\n' ∉ body.toList) ∧
      ((fresh ⟨true, false⟩).run [] Schema.segment).trace =
        ((fresh ⟨true, true⟩).run [] Schema.segment).trace := by
  obtain ⟨-, ⟨hwritten, htext, -, htraced⟩, hended, htold⟩ :=
    traces_faithful Schema.segment [] .standardError
  have hcoherent := Schema.coherent_segment
  have hdefinition : Schema.point ∈ Schema.segment.definitions :=
    ⟨.child _ _ .root List.mem_cons_self, rfl⟩
  have hisWritten : (⟨.fixed, "geo.Point", "Point", "", "geo"⟩ : TraceEntry) ∈
      ((fresh ⟨true, false⟩).run [] Schema.segment).trace := by
    rw [hwritten]
    exact .tail _ (.head _)
  refine ⟨hcoherent, (htraced hcoherent _).2 ⟨hdefinition, rfl⟩, hisWritten, ?_,
    hended false _ hisWritten, ?_⟩
  · exact htext.trans (by decide)
  · exact htold false Schema.segment ⟨true, true⟩ [] rfl

end Verifier

end AvroSchema
