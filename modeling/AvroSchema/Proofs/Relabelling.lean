import Mathlib.Data.List.Forall2
import AvroSchema.Proofs.Runs

/-!
# The identities of nodes

`Schema.Relabelled` says that two schemas differ only in the identities of their nodes. Those of
named types correspond to one another, and those of other types may be any, so that what is one
array, map or union in one of the schemas may be several equal ones in the other. The main statement
says that a verifier cannot tell such schemas apart if the correspondence is one to one
(`Schema.Relabelled.runs_match`).

The walks through both schemas make related stops and enter related nodes
(`Schema.Relabelled.tours_match`), related stops have related events (`Stop.Relabelled.events`), and
so the transcripts are related (`transcripts_match`).
-/

namespace AvroSchema

mutual
/-- Two types that differ only in the identities of nodes, where those of named types have to be the
same for a correspondence between both sides. -/
inductive Schema.Relabelled (same : NodeId → NodeId → Prop) : Schema → Schema → Prop where
  | primitive {node other : NodeId} {token : String} :
      Schema.Relabelled same (.primitive node token) (.primitive other token)
  | record {node other : NodeId} {definition : Definition} {fields others : List Field} :
      same node other → Field.Relabelled same fields others →
        Schema.Relabelled same (.record node definition fields) (.record other definition others)
  | enum {node other : NodeId} {definition : Definition} {symbols : List String} :
      same node other →
        Schema.Relabelled same (.enum node definition symbols) (.enum other definition symbols)
  | fixed {node other : NodeId} {definition : Definition} {size : Nat} :
      same node other →
        Schema.Relabelled same (.fixed node definition size) (.fixed other definition size)
  | array {node other : NodeId} {items others : Option Schema} :
      Schema.RelabelledChild same items others →
        Schema.Relabelled same (.array node items) (.array other others)
  | map {node other : NodeId} {values others : Option Schema} :
      Schema.RelabelledChild same values others →
        Schema.Relabelled same (.map node values) (.map other others)
  | union {node other : NodeId} {branches others : List (Option Schema)} :
      Schema.RelabelledBranches same branches others →
        Schema.Relabelled same (.union node branches) (.union other others)

/-- Two places where a type is due and that differ only in the identities of nodes. -/
inductive Schema.RelabelledChild (same : NodeId → NodeId → Prop) :
    Option Schema → Option Schema → Prop where
  | missing : Schema.RelabelledChild same none none
  | present {type other : Schema} : Schema.Relabelled same type other →
      Schema.RelabelledChild same (some type) (some other)

/-- Fields that differ only in the identities of nodes. -/
inductive Field.Relabelled (same : NodeId → NodeId → Prop) : List Field → List Field → Prop where
  | nil : Field.Relabelled same [] []
  | cons {name : String} {type other : Option Schema} {fields others : List Field} :
      Schema.RelabelledChild same type other → Field.Relabelled same fields others →
        Field.Relabelled same (⟨name, type⟩ :: fields) (⟨name, other⟩ :: others)

/-- Branches that differ only in the identities of nodes. -/
inductive Schema.RelabelledBranches (same : NodeId → NodeId → Prop) :
    List (Option Schema) → List (Option Schema) → Prop where
  | nil : Schema.RelabelledBranches same [] []
  | missing {branches others : List (Option Schema)} :
      Schema.RelabelledBranches same branches others →
        Schema.RelabelledBranches same (none :: branches) (none :: others)
  | present {type other : Schema} {branches others : List (Option Schema)} :
      Schema.Relabelled same type other → Schema.RelabelledBranches same branches others →
        Schema.RelabelledBranches same (some type :: branches) (some other :: others)
end

variable {same : NodeId → NodeId → Prop}

namespace Schema.Relabelled

variable {type other : Schema}

/-- Other identities leave the kind, the definition and the name of a type as they are. -/
theorem alike (h : type.Relabelled same other) :
    type.kind = other.kind ∧ type.definition? = other.definition? ∧ type.name = other.name := by
  cases h with
  | primitive | record | enum | fixed | array | map | union => exact ⟨rfl, rfl, rfl⟩

/-- The nodes of named types correspond. -/
theorem same_node (h : type.Relabelled same other) (hnamed : type.isNamed) :
    same type.node other.node := by
  cases h with
  | record hsameNode | enum hsameNode | fixed hsameNode => exact hsameNode
  | primitive | array | map | union => cases hnamed

/-- Other identities leave the key of a branch as it is. -/
theorem branch_key_eq (h : type.Relabelled same other) (enclosing : String) :
    type.branchKey enclosing = other.branchKey enclosing := by
  obtain ⟨-, hdefinition, hname⟩ := h.alike
  exact branch_key_congr hdefinition hname enclosing

end Schema.Relabelled

/-- Two stops that differ only in the identities of nodes. -/
inductive Stop.Relabelled (same : NodeId → NodeId → Prop) : Stop → Stop → Prop where
  | arrival {type other : Schema} {enclosing : String} : type.Relabelled same other →
      Stop.Relabelled same (.arrival type enclosing) (.arrival other enclosing)
  | returned {type other : Schema} {enclosing : String} : type.Relabelled same other →
      Stop.Relabelled same (.returned type enclosing) (.returned other enclosing)
  | aside {stop : Stop} : stop.visit? = none → Stop.Relabelled same stop stop

/-- Two tours whose stops differ only in the identities of nodes, and that enter the same nodes. -/
structure Tour.Matches (same : NodeId → NodeId → Prop) (tour other : Tour) : Prop where
  stops : List.Forall₂ (Stop.Relabelled same) tour.stops other.stops
  entered : List.Forall₂ same tour.entered other.entered

namespace Tour.Matches

variable {tour other : Tour}

/-- A tour without stops enters no further nodes. -/
theorem nil {entered others : List NodeId} (h : List.Forall₂ same entered others) :
    Matches same ⟨[], entered⟩ ⟨[], others⟩ :=
  ⟨.nil, h⟩

/-- Related stops may be put in front. -/
theorem after {stop next : Stop} (hfirst : stop.Relabelled same next)
    (h : Matches same tour other) : Matches same (tour.after stop) (other.after next) :=
  ⟨.cons hfirst h.stops, h.entered⟩

/-- Tours may be made one after the other. -/
theorem and_then {next later : List NodeId → Tour} (h : Matches same tour other)
    (hnext : Matches same (next tour.entered) (later other.entered)) :
    Matches same (tour.andThen next) (other.andThen later) :=
  ⟨List.rel_append h.stops hnext.stops, hnext.entered⟩

/-- Both tours turn back from a named type, or both enter it. -/
theorem of_named (honeToOne : Relator.BiUnique same) {type second : Schema} {enclosing : String}
    {entered others : List NodeId} (h : type.Relabelled same second) (hnamed : type.isNamed)
    (hknown : List.Forall₂ same entered others) (hinside : Matches same tour other) :
    Matches same
      (if entered.contains type.node then ⟨[.returned type enclosing], entered⟩
        else tour.after (.arrival type enclosing))
      (if others.contains second.node then ⟨[.returned second enclosing], others⟩
        else other.after (.arrival second enclosing)) := by
  have hsameKnown : type.node ∈ entered ↔ second.node ∈ others :=
    List.rel_mem honeToOne (h.same_node hnamed) hknown
  by_cases hpassed : type.node ∈ entered
  · rw [if_pos (by simpa using hpassed), if_pos (by simpa using hsameKnown.1 hpassed)]
    exact ⟨.cons (.returned h) .nil, hknown⟩
  · rw [if_neg (by simpa using hpassed), if_neg (by simpa using mt hsameKnown.2 hpassed)]
    exact after (.arrival h) hinside

/-- The symbols of an enum do not depend on any node. -/
theorem symbol_stops (definition : Definition) (earlier symbols : List String)
    {entered others : List NodeId} (h : List.Forall₂ same entered others) :
    Matches same ⟨definition.symbolStops earlier symbols, entered⟩
      ⟨definition.symbolStops earlier symbols, others⟩ := by
  induction symbols generalizing earlier with
  | nil => exact nil h
  | cons symbol rest ih => exact after (.aside rfl) (ih (symbol :: earlier))

end Tour.Matches

open Tour

mutual
/-- The tours of two types that differ only in the identities of nodes match. -/
theorem Schema.Relabelled.tours_match (honeToOne : Relator.BiUnique same) {type other : Schema}
    (h : type.Relabelled same other) (enclosing : String) {entered known : List NodeId}
    (hbefore : List.Forall₂ same entered known) :
    Matches same (type.tour enclosing entered) (other.tour enclosing known) := by
  cases h with
  | primitive => exact ⟨.cons (.arrival .primitive) .nil, hbefore⟩
  | record hsameNode hsameFields =>
      rw [Schema.tour, Schema.tour]
      exact .of_named honeToOne (.record hsameNode hsameFields) rfl hbefore
        (Field.Relabelled.tours_match honeToOne hsameFields _ _ [] (.cons hsameNode hbefore))
  | enum hsameNode =>
      rw [Schema.tour, Schema.tour]
      exact .of_named honeToOne (.enum hsameNode) rfl hbefore
        (.symbol_stops _ [] _ (.cons hsameNode hbefore))
  | fixed hsameNode =>
      rw [Schema.tour, Schema.tour]
      exact .of_named honeToOne (.fixed hsameNode) rfl hbefore (.nil (.cons hsameNode hbefore))
  | array hsameItems =>
      rw [Schema.tour, Schema.tour]
      exact .after (.arrival (.array hsameItems))
        (Schema.RelabelledChild.tours_match honeToOne hsameItems .element enclosing hbefore)
  | map hsameValues =>
      rw [Schema.tour, Schema.tour]
      exact .after (.arrival (.map hsameValues))
        (Schema.RelabelledChild.tours_match honeToOne hsameValues .element enclosing hbefore)
  | union hsameBranches =>
      rw [Schema.tour, Schema.tour]
      exact .after (.arrival (.union hsameBranches))
        (Schema.RelabelledBranches.tours_match honeToOne hsameBranches enclosing [] hbefore)

/-- So do the tours of two places where a type is due. -/
theorem Schema.RelabelledChild.tours_match (honeToOne : Relator.BiUnique same)
    {child other : Option Schema} (h : Schema.RelabelledChild same child other) (gap : Gap)
    (enclosing : String) {entered known : List NodeId}
    (hbefore : List.Forall₂ same entered known) :
    Matches same (Schema.tourChild gap enclosing entered child)
      (Schema.tourChild gap enclosing known other) := by
  cases h with
  | missing => exact ⟨.cons (.aside rfl) .nil, hbefore⟩
  | present hsameType => exact Schema.Relabelled.tours_match honeToOne hsameType enclosing hbefore

/-- So do the tours of fields. -/
theorem Field.Relabelled.tours_match (honeToOne : Relator.BiUnique same)
    {fields others : List Field} (h : Field.Relabelled same fields others) (definition : Definition)
    (enclosing : String) (earlier : List String) {entered known : List NodeId}
    (hbefore : List.Forall₂ same entered known) :
    Matches same (Field.tour definition enclosing earlier entered fields)
      (Field.tour definition enclosing earlier known others) := by
  cases h with
  | nil => exact .nil hbefore
  | @cons name _ _ _ _ hsameType hsameRest =>
      have hfirst :=
        Schema.RelabelledChild.tours_match honeToOne hsameType (.field definition) enclosing hbefore
      rw [Field.tour, Field.tour]
      exact .after (.aside rfl) (hfirst.and_then
        (Field.Relabelled.tours_match honeToOne hsameRest definition enclosing (name :: earlier)
          hfirst.entered))

/-- So do the tours of branches. -/
theorem Schema.RelabelledBranches.tours_match (honeToOne : Relator.BiUnique same)
    {branches others : List (Option Schema)} (h : Schema.RelabelledBranches same branches others)
    (enclosing : String) (earlier : List String) {entered known : List NodeId}
    (hbefore : List.Forall₂ same entered known) :
    Matches same (Schema.tourBranches enclosing earlier entered branches)
      (Schema.tourBranches enclosing earlier known others) := by
  cases h with
  | nil => exact .nil hbefore
  | missing hsameRest =>
      rw [Schema.tourBranches, Schema.tourBranches]
      exact .after (.aside rfl)
        (Schema.RelabelledBranches.tours_match honeToOne hsameRest enclosing earlier hbefore)
  | @present type other _ _ hsameType hsameRest =>
      have hfirst := Schema.Relabelled.tours_match honeToOne hsameType enclosing hbefore
      rw [Schema.tourBranches, Schema.tourBranches, ← hsameType.alike.1,
        ← hsameType.branch_key_eq enclosing]
      split
      · exact .after (.aside rfl) (hfirst.and_then
          (Schema.RelabelledBranches.tours_match honeToOne hsameRest enclosing earlier
            hfirst.entered))
      · exact .after (.aside rfl) (hfirst.and_then
          (Schema.RelabelledBranches.tours_match honeToOne hsameRest enclosing
            (type.branchKey enclosing :: earlier) hfirst.entered))
end

/-- Two entries of name tables that hold corresponding nodes under the same fullname. -/
structure NameTable.EntryRelabelled (same : NodeId → NodeId → Prop)
    (entry other : String × Schema) : Prop where
  fullname : entry.1 = other.1
  node : same entry.2.node other.2.node
  type : entry.2.Relabelled same other.2

/-- Two name tables that hold corresponding nodes under the same fullnames, in the same order. -/
def NameTable.Relabelled (same : NodeId → NodeId → Prop) (names others : NameTable) : Prop :=
  List.Forall₂ (NameTable.EntryRelabelled same) names.entries others.entries

/-- Name tables with corresponding nodes define the same fullnames. -/
theorem NameTable.Relabelled.defines_eq {names others : NameTable}
    (h : names.Relabelled same others) (fullname : String) :
    names.defines fullname = others.defines fullname := by
  have hsameFullnames : names.fullnames = others.fullnames :=
    List.forall₂_eq_eq_eq ▸ List.rel_map (fun _ _ hentry => hentry.fullname) h
  rw [Bool.eq_iff_iff, NameTable.defines_iff, NameTable.defines_iff, hsameFullnames]

/-- Two events that differ only in the identities of nodes. -/
inductive Event.Relabelled (same : NodeId → NodeId → Prop) : Event → Event → Prop where
  | traced {entry : TraceEntry} : Event.Relabelled same (.traced entry) (.traced entry)
  | failed {failure : Failure} : Event.Relabelled same (.failed failure) (.failed failure)
  | defined {fullname : String} {type other : Schema} :
      NameTable.EntryRelabelled same (fullname, type) (fullname, other) →
        Event.Relabelled same (.defined fullname type) (.defined fullname other)

/-- Defining corresponding nodes in tables with corresponding nodes leads to such tables. -/
theorem NameTable.Relabelled.extend {names others : NameTable} (h : names.Relabelled same others)
    {events later : List Event} (hevents : List.Forall₂ (Event.Relabelled same) events later) :
    (names.extend events).Relabelled same (others.extend later) := by
  have hdefined : ∀ {event other : Event}, event.Relabelled same other →
      Option.Rel (EntryRelabelled same) event.definition? other.definition? := by
    rintro _ _ (_ | _ | hentry)
    · exact .none
    · exact .none
    · exact .some hentry
  exact List.rel_append h (List.rel_filterMap (fun _ _ hevent => hdefined hevent) hevents)

/-- What happens at the first arrival at a named type does not depend on the identities of nodes. -/
theorem Schema.Relabelled.definition_events {type other : Schema} (h : type.Relabelled same other)
    (hnamed : type.isNamed) {names others : NameTable} (hbefore : names.Relabelled same others)
    (definition : Definition) (enclosing : String) :
    List.Forall₂ (Event.Relabelled same) (type.definitionEvents names definition enclosing)
      (other.definitionEvents others definition enclosing) := by
  obtain ⟨hkind, hdefinition, hname⟩ := h.alike
  have hsameEntry : TraceEntry.ofType type enclosing (definition.resolve enclosing).fullname =
      .ofType other enclosing (definition.resolve enclosing).fullname := by
    simp only [TraceEntry.ofType, hkind, hname, ns, hdefinition]
  rw [Schema.definitionEvents, Schema.definitionEvents]
  cases definition.nameError? with
  | some cause => exact .cons .failed .nil
  | none =>
      simp only [hsameEntry, ← hbefore.defines_eq]
      refine .cons .traced (List.rel_append ?_ ?_)
      · split
        · exact .nil
        · exact .cons .failed .nil
      · split
        · exact .cons .failed .nil
        · exact .cons (.defined ⟨rfl, h.same_node hnamed, h⟩) .nil

/-- What happens at a stop does not depend on the identities of nodes. -/
theorem Stop.Relabelled.events {stop next : Stop} (h : stop.Relabelled same next)
    {names others : NameTable} (hbefore : names.Relabelled same others) :
    List.Forall₂ (Event.Relabelled same) (stop.events names) (next.events others) := by
  cases h with
  | @arrival _ _ enclosing h =>
      cases h with
      | record hsameNode hsameFields =>
          exact (Schema.Relabelled.record hsameNode hsameFields).definition_events rfl hbefore _ _
      | enum hsameNode => exact (Schema.Relabelled.enum hsameNode).definition_events rfl hbefore _ _
      | fixed hsameNode =>
          exact (Schema.Relabelled.fixed hsameNode).definition_events rfl hbefore _ _
      | primitive =>
          rw [Stop.events, Stop.events, Schema.arrivalEvents, Schema.arrivalEvents]
          split
          · exact .nil
          · exact .cons .failed .nil
      | array | map | union => exact .nil
  | returned => exact .nil
  | aside hsilent =>
      cases stop with
      | arrival | returned => cases hsilent
      | field definition earlier name =>
          rw [Stop.events, Stop.events]
          split_ifs
          · exact .cons .failed .nil
          · exact .cons .failed .nil
          · exact .nil
      | symbol definition earlier name =>
          rw [Stop.events, Stop.events]
          split_ifs
          · exact .cons .failed .nil
          · exact .cons .failed .nil
          · exact .nil
      | branch earlier key =>
          rw [Stop.events, Stop.events]
          split_ifs
          · exact .cons .failed .nil
          · exact .nil
      | nested | gap => exact .cons .failed .nil

/-- What happens along a walk does not depend on the identities of nodes. -/
theorem transcripts_match {stops others : List Stop}
    (h : List.Forall₂ (Stop.Relabelled same) stops others) {names known : NameTable}
    (hbefore : names.Relabelled same known) :
    List.Forall₂ (Event.Relabelled same) (transcript names stops) (transcript known others) := by
  induction h generalizing names known with
  | nil => exact .nil
  | cons hfirst _ ih =>
      have hevents := hfirst.events hbefore
      exact List.rel_append hevents (ih (hbefore.extend hevents))

namespace Event

variable {events others : List Event}

/-- Where the events are cut off does not depend on the identities of nodes. -/
theorem through_first_failure_match (h : List.Forall₂ (Event.Relabelled same) events others) :
    List.Forall₂ (Event.Relabelled same) (throughFirstFailure events)
      (throughFirstFailure others) := by
  induction h with
  | nil => exact .nil
  | cons hfirst _ ih =>
      cases hfirst with
      | traced => exact .cons .traced ih
      | failed => exact .cons .failed .nil
      | defined hentry => exact .cons (.defined hentry) ih

/-- What is the same for related events is the same for related lists of them. -/
theorem filter_map_eq_of_relabelled {α : Type} {f : Event → Option α}
    (hkept : ∀ event other, Event.Relabelled same event other → f event = f other)
    (h : List.Forall₂ (Event.Relabelled same) events others) :
    events.filterMap f = others.filterMap f := by
  induction h with
  | nil => rfl
  | cons hfirst _ ih => rw [List.filterMap_cons, List.filterMap_cons, hkept _ _ hfirst, ih]

end Event

/-- Two reports that differ only in the identities of nodes. -/
structure Report.Matches (same : NodeId → NodeId → Prop) (report other : Report) : Prop where
  names : report.names.Relabelled same other.names
  diagnostics : report.diagnostics = other.diagnostics
  trace : report.trace = other.trace

/-- The report on events does not depend on the identities of nodes. -/
theorem Report.of_events_matches {events others : List Event} (mode : TraceMode)
    (h : List.Forall₂ (Event.Relabelled same) events others) :
    (ofEvents mode events).Matches same (ofEvents mode others) where
  names := NameTable.Relabelled.extend .nil h
  diagnostics := by
    have hfailures : events.filterMap Event.failure? = others.filterMap Event.failure? :=
      Event.filter_map_eq_of_relabelled (by rintro _ _ (_ | _ | _) <;> rfl) h
    rw [ofEvents, ofEvents, hfailures]
  trace := by
    have hentries : events.filterMap Event.entry? = others.filterMap Event.entry? :=
      Event.filter_map_eq_of_relabelled (by rintro _ _ (_ | _ | _) <;> rfl) h
    rw [ofEvents, ofEvents, hentries]

namespace Schema

/-- The report on a schema does not depend on the identities of nodes. -/
theorem Relabelled.verify_matches (honeToOne : Relator.BiUnique same) {root other : Schema}
    (h : root.Relabelled same other) (options : Options) :
    (root.verify options).Matches same (other.verify options) := by
  have hevents : List.Forall₂ (Event.Relabelled same) root.events other.events :=
    transcripts_match (h.tours_match honeToOne "" .nil).stops .nil
  rw [verify_eq, verify_eq]
  split
  · exact Report.of_events_matches _ (Event.through_first_failure_match hevents)
  · exact Report.of_events_matches _ hevents

/-- Only the identities of named nodes matter. If two schemas differ in nothing but the identities
of nodes, and those of named types correspond one to one, then whatever options a verifier has and
whatever it has done before, its runs on them have the same outcome, report the same diagnostics in
the same order and write the same trace, wherever that goes. The nodes in the name tables that they
leave behind correspond, and stand under the same fullnames. -/
theorem Relabelled.runs_match (honeToOne : Relator.BiUnique same) {root other : Schema}
    (h : root.Relabelled same other) (verifier : Verifier) (log : List Diagnostic)
    (target : TraceTarget) :
    (verifier.run log other).outcome = (verifier.run log root).outcome ∧
      (verifier.run log other).log = (verifier.run log root).log ∧
      target.output (verifier.run log other).trace =
        target.output (verifier.run log root).trace ∧
      (verifier.run log root).verifier.names.Relabelled same
        (verifier.run log other).verifier.names := by
  obtain ⟨entered, hran, -⟩ := verifier.run_eq log root
  obtain ⟨otherEntered, hotherRan, -⟩ := verifier.run_eq log other
  obtain ⟨hnames, hdiagnostics, htrace⟩ := h.verify_matches honeToOne verifier.options
  rw [hran, hotherRan]
  simp only [outcome_verify_eq_head, hdiagnostics, htrace]
  exact ⟨trivial, trivial, trivial, hnames⟩

/-- A record with two fields that are a stamp or nothing. Its nodes have the given identities. -/
def route (record first second stamp : NodeId) : Schema :=
  let optional (union : NodeId) : Schema :=
    .union union [some (.primitive 0 "null"),
      some (.fixed stamp (.declare "Stamp" "" "post" .unknown) 8)]
  .record record (.declare "Route" "post" "" .unknown)
    [⟨"start", some (optional first)⟩, ⟨"end", some (optional second)⟩]

/-- A verifier does not see whether two fields share a union or have two equal ones. -/
theorem runs_match_route :
    Relator.BiUnique (fun node other : NodeId => other = node + 10) ∧
      (route 1 2 2 3).Relabelled (fun node other => other = node + 10) (route 11 8 9 13) ∧
      ((Verifier.fresh ⟨true, false⟩).run [] (route 11 8 9 13)).outcome =
        ((Verifier.fresh ⟨true, false⟩).run [] (route 1 2 2 3)).outcome ∧
      ((Verifier.fresh ⟨true, false⟩).run [] (route 1 2 2 3)).verifier.names.Relabelled
        (fun node other => other = node + 10)
        ((Verifier.fresh ⟨true, false⟩).run [] (route 11 8 9 13)).verifier.names := by
  have honeToOne : Relator.BiUnique (fun node other : NodeId => other = node + 10) := by
    constructor
    · intro first second other h hsecond
      exact Nat.add_right_cancel (h.symm.trans hsecond)
    · intro node first second h hsecond
      exact h.trans hsecond.symm
  have hrelabelled : (route 1 2 2 3).Relabelled (fun node other => other = node + 10)
      (route 11 8 9 13) :=
    .record rfl
      (.cons (.present (.union (.present .primitive (.present (.fixed rfl) .nil))))
        (.cons (.present (.union (.present .primitive (.present (.fixed rfl) .nil)))) .nil))
  obtain ⟨houtcome, -, -, hnames⟩ :=
    hrelabelled.runs_match honeToOne (.fresh ⟨true, false⟩) [] .stream
  exact ⟨honeToOne, hrelabelled, houtcome, hnames⟩

end Schema

end AvroSchema
