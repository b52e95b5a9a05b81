import Mathlib.Data.List.Forall2
import AvroSchema.Proofs.Frames
import AvroSchema.Proofs.GrammaticalNames
import AvroSchema.Proofs.Resolution

/-!
# Names spelled out

`Schema.spelledOut` writes every name in a schema as the short name and the namespace that it stands
for where the walk comes to it. Whatever a verifier looks at stays the same, namely whether names
are accepted, what they resolve to, and what fullname and place are recorded
(`Definition.means_same_spelled_out`). The main statement says that a verifier defines the same
names and reports the same as if all names were spelled out, however they are written and whether
types are shared or not (`Schema.verify_spelled_out`).
-/

namespace AvroSchema

/-- A definition with its name written as the short name and the namespace that it stands for inside
an enclosing namespace. One whose names are refused stays as it is. -/
def Definition.spelledOut (enclosing : String) (definition : Definition) : Definition :=
  if definition.nameError?.isSome then definition
  else
    { definition with
      name := (definition.resolve enclosing).short
      ns := (definition.resolve enclosing).ns }

mutual
/-- A type that is reached with an enclosing namespace, with all names in it spelled out. -/
def Schema.spelledOut (enclosing : String) : Schema → Schema
  | .primitive node token => .primitive node token
  | .record node definition fields =>
      .record node (definition.spelledOut enclosing)
        (Field.spelledOut (definition.innerNamespace enclosing) fields)
  | .enum node definition symbols => .enum node (definition.spelledOut enclosing) symbols
  | .fixed node definition size => .fixed node (definition.spelledOut enclosing) size
  | .array node items => .array node (Schema.spelledOutChild enclosing items)
  | .map node values => .map node (Schema.spelledOutChild enclosing values)
  | .union node branches => .union node (Schema.spelledOutBranches enclosing branches)

/-- A place where a type is due, with all names in the type spelled out. -/
def Schema.spelledOutChild (enclosing : String) : Option Schema → Option Schema
  | none => none
  | some type => some (type.spelledOut enclosing)

/-- The fields of a record, with all names in their types spelled out. -/
def Field.spelledOut (enclosing : String) : List Field → List Field
  | [] => []
  | ⟨name, type⟩ :: rest =>
      ⟨name, Schema.spelledOutChild enclosing type⟩ :: Field.spelledOut enclosing rest

/-- The branches of a union, with all names in them spelled out. -/
def Schema.spelledOutBranches (enclosing : String) : List (Option Schema) → List (Option Schema)
  | [] => []
  | none :: rest => none :: Schema.spelledOutBranches enclosing rest
  | some type :: rest =>
      some (type.spelledOut enclosing) :: Schema.spelledOutBranches enclosing rest
end

/-- Two definitions mean the same inside an enclosing namespace if they are accepted or refused for
the same cause, resolve to the same name there, and record the same fullname and place. -/
structure Definition.MeansSame (enclosing : String) (definition other : Definition) : Prop where
  nameError : definition.nameError? = other.nameError?
  resolve : definition.resolve enclosing = other.resolve enclosing
  fullname : definition.fullname = other.fullname
  location : definition.location = other.location

namespace Definition

variable {enclosing : String} {definition other : Definition}

/-- Definitions that mean the same hand down the same namespace. -/
theorem MeansSame.inner_namespace (h : definition.MeansSame enclosing other) :
    definition.innerNamespace enclosing = other.innerNamespace enclosing := by
  rw [Definition.innerNamespace, Definition.innerNamespace, h.nameError, h.resolve]

/-- A definition means the same when its name is spelled out. -/
theorem means_same_spelled_out (definition : Definition) (hinherited : Name.IsNamespace enclosing) :
    definition.MeansSame enclosing (definition.spelledOut enclosing) := by
  cases haccepted : definition.nameError? with
  | some cause =>
      have hkept : definition.spelledOut enclosing = definition := by simp [spelledOut, haccepted]
      rw [hkept]
      exact ⟨rfl, rfl, rfl, rfl⟩
  | none =>
      obtain ⟨hdotted, hexplicit, hrecorded, hunreserved⟩ :=
        (definition.name_error_eq_none_iff enclosing).1 haccepted
      have hspelled : definition.spelledOut enclosing =
          { definition with
            name := (definition.resolve enclosing).short
            ns := (definition.resolve enclosing).ns } := by
        simp [spelledOut, haccepted]
      have hagain : (definition.spelledOut enclosing).resolve enclosing =
          definition.resolve enclosing := by
        rw [hspelled]
        exact QualifiedName.resolve_resolve hdotted definition.ns enclosing
      have hstillAccepted : (definition.spelledOut enclosing).nameError? = none := by
        rw [name_error_eq_none_iff _ enclosing, hagain, hspelled]
        exact ⟨QualifiedName.is_dotted_short_resolve hdotted definition.ns enclosing,
          QualifiedName.is_namespace_ns_resolve hdotted hexplicit hinherited, hrecorded,
          hunreserved⟩
      refine ⟨haccepted.trans hstillAccepted.symm, hagain.symm, ?_, ?_⟩
      · rw [hspelled]
      · rw [hspelled]

end Definition

/-- Two events are alike if they report the same or define the same fullname for one node, whatever
is written to the trace. -/
inductive Event.Alike : Event → Event → Prop where
  | traced {entry other : TraceEntry} : Event.Alike (.traced entry) (.traced other)
  | failed {failure other : Failure} : failure.diagnostic = other.diagnostic →
      Event.Alike (.failed failure) (.failed other)
  | defined {fullname : String} {type other : Schema} : type.node = other.node →
      Event.Alike (.defined fullname type) (.defined fullname other)

/-- Every event is like itself. -/
theorem Event.Alike.refl (event : Event) : event.Alike event := by
  cases event with
  | traced entry => exact .traced
  | failed failure => exact .failed rfl
  | defined fullname type => exact .defined rfl

/-- The fullnames defined so far, each with the node that it is defined for. -/
def NameTable.nodes (names : NameTable) : List (String × NodeId) :=
  names.entries.map fun entry => (entry.1, entry.2.node)

namespace NameTable

/-- The fullnames with their nodes are the defined fullnames. -/
theorem map_fst_nodes (names : NameTable) : names.nodes.map Prod.fst = names.fullnames :=
  List.map_map

variable {names known : NameTable}

/-- Name tables with the same nodes under the same fullnames define the same fullnames. -/
theorem defines_eq_of_nodes_eq (h : names.nodes = known.nodes) (fullname : String) :
    names.defines fullname = known.defines fullname := by
  rw [Bool.eq_iff_iff, defines_iff, defines_iff, ← map_fst_nodes, ← map_fst_nodes, h]

/-- After events that are alike, the same nodes still stand under the same fullnames. -/
theorem nodes_extend_eq (h : names.nodes = known.nodes) {events others : List Event}
    (hhappened : List.Forall₂ Event.Alike events others) :
    (names.extend events).nodes = (known.extend others).nodes := by
  have hdefined : (events.filterMap Event.definition?).map (fun entry => (entry.1, entry.2.node)) =
      (others.filterMap Event.definition?).map fun entry => (entry.1, entry.2.node) := by
    induction hhappened with
    | nil => rfl
    | cons hfirst _ ih =>
        cases hfirst with
        | traced => exact ih
        | failed => exact ih
        | defined hsameNode => exact congrArg₂ List.cons (congrArg (Prod.mk _) hsameNode) ih
  rw [nodes, nodes, extend, extend, List.map_append, List.map_append, hdefined]
  exact congrArg (· ++ _) h

end NameTable

/-- Two stops are alike if what happens at them is, whatever names are defined. -/
def Stop.Alike (stop other : Stop) : Prop :=
  ∀ names known : NameTable, names.nodes = known.nodes →
    List.Forall₂ Event.Alike (stop.events names) (other.events known)

/-- Every stop is like itself. -/
theorem Stop.Alike.refl (stop : Stop) : stop.Alike stop := by
  intro names known hbefore
  have hsame : stop.events names = stop.events known := by
    apply stop.events_congr
    intro registration _
    rw [← NameTable.map_fst_nodes, ← NameTable.map_fst_nodes, hbefore]
  rw [hsame]
  exact List.forall₂_same.2 fun event _ => .refl event

/-- What happens along stops that are alike is alike. -/
theorem transcripts_alike {stops others : List Stop} (h : List.Forall₂ Stop.Alike stops others)
    {names known : NameTable} (hbefore : names.nodes = known.nodes) :
    List.Forall₂ Event.Alike (transcript names stops) (transcript known others) := by
  induction h generalizing names known with
  | nil => exact .nil
  | cons hfirst _ ih =>
      have hevents := hfirst names known hbefore
      exact List.rel_append hevents (ih (NameTable.nodes_extend_eq hbefore hevents))

/-- What can be wrong with a definition is unspelled if no report of it shows how the name of the
definition is written. -/
def Definition.Unspelled (about : Definition → Failure) : Prop :=
  ∀ (definition : Definition) (name ns : String),
    (about { definition with name, ns }).diagnostic = (about definition).diagnostic

namespace Definition.MeansSame

variable {enclosing : String} {definition other : Definition}

/-- Of definitions that mean the same, the same is reported. -/
theorem diagnostic_eq (h : definition.MeansSame enclosing other) {about : Definition → Failure}
    (hunspelled : Unspelled about) : (about definition).diagnostic = (about other).diagnostic := by
  have hrespelled : other = { definition with name := other.name, ns := other.ns } := by
    rw [h.fullname, h.location]
  rw [hrespelled]
  exact (hunspelled definition other.name other.ns).symm

/-- What happens at the arrivals at definitions that mean the same is alike. -/
theorem arrival (h : definition.MeansSame enclosing other) {type next : Schema}
    (hdefinition : type.definition? = some definition) (hother : next.definition? = some other)
    (hsameNode : type.node = next.node) :
    (Stop.arrival type enclosing).Alike (.arrival next enclosing) := by
  intro names known hbefore
  rw [Stop.events, Stop.events, Schema.arrival_events_of_definition hdefinition,
    Schema.arrival_events_of_definition hother, Schema.definitionEvents, Schema.definitionEvents,
    ← h.nameError]
  cases definition.nameError? with
  | some cause =>
      have hrefused : Unspelled (.names · cause) := fun _ _ _ => rfl
      exact .cons (.failed (h.diagnostic_eq hrefused)) .nil
  | none =>
      have hmisnamed : ∀ fullname, Unspelled (.fullname · fullname) := fun _ _ _ _ => rfl
      have hclashes : ∀ fullname, Unspelled (.duplicateName · fullname) := fun _ _ _ _ => rfl
      simp only [← h.resolve, ← h.fullname, ← NameTable.defines_eq_of_nodes_eq hbefore]
      refine .cons .traced (List.rel_append ?_ ?_)
      · split
        · exact .nil
        · exact .cons (.failed (h.diagnostic_eq (hmisnamed _))) .nil
      · split
        · exact .cons (.failed (h.diagnostic_eq (hclashes _))) .nil
        · exact .cons (.defined hsameNode) .nil

/-- Checking a name inside definitions that mean the same leads to events that are alike. -/
theorem checked_name (h : definition.MeansSame enclosing other)
    {malformed duplicate : Definition → Failure} (hmalformed : Unspelled malformed)
    (hduplicate : Unspelled duplicate) (earlier : List String) (name : String) :
    List.Forall₂ Event.Alike
      (if !Name.isSimple name then [.failed (malformed definition)]
        else if earlier.contains name then [.failed (duplicate definition)]
        else [])
      (if !Name.isSimple name then [.failed (malformed other)]
        else if earlier.contains name then [.failed (duplicate other)]
        else []) := by
  split_ifs
  · exact .cons (.failed (h.diagnostic_eq hmalformed)) .nil
  · exact .cons (.failed (h.diagnostic_eq hduplicate)) .nil
  · exact .nil

/-- What happens at fields of definitions that mean the same is alike. -/
theorem field (h : definition.MeansSame enclosing other) (earlier : List String) (name : String) :
    (Stop.field definition earlier name).Alike (.field other earlier name) := by
  have hmalformed : Unspelled (.malformedField · name) := fun _ _ _ => rfl
  have hduplicate : Unspelled (.duplicateField · name) := fun _ _ _ => rfl
  exact fun _ _ _ => h.checked_name hmalformed hduplicate earlier name

/-- What happens at fields without types of definitions that mean the same is alike. -/
theorem gap (h : definition.MeansSame enclosing other) :
    (Stop.gap (.field definition)).Alike (.gap (.field other)) := by
  have hmissing : Unspelled .missingField := fun _ _ _ => rfl
  exact fun _ _ _ => .cons (.failed (h.diagnostic_eq hmissing)) .nil

/-- What happens at the symbols of definitions that mean the same is alike. -/
theorem symbol_stops (h : definition.MeansSame enclosing other) (earlier symbols : List String) :
    List.Forall₂ Stop.Alike (definition.symbolStops earlier symbols)
      (other.symbolStops earlier symbols) := by
  induction symbols generalizing earlier with
  | nil => exact .nil
  | cons symbol rest ih =>
      have hmalformed : Unspelled (.malformedSymbol · symbol) := fun _ _ _ => rfl
      have hduplicate : Unspelled (.duplicateSymbol · symbol) := fun _ _ _ => rfl
      exact .cons (fun _ _ _ => h.checked_name hmalformed hduplicate earlier symbol)
        (ih (symbol :: earlier))

end Definition.MeansSame

namespace Schema

variable {enclosing : String}

/-- Spelling names out changes no kind. -/
theorem kind_spelled_out (type : Schema) : (type.spelledOut enclosing).kind = type.kind := by
  cases type with
  | primitive | record | enum | fixed | array | map | union => rfl

/-- Spelling names out leaves the key of a branch as it is. -/
theorem branch_key_spelled_out (type : Schema) (hinherited : Name.IsNamespace enclosing) :
    (type.spelledOut enclosing).branchKey enclosing = type.branchKey enclosing := by
  cases type with
  | record _ definition _ | enum _ definition _ | fixed _ definition _ =>
      rw [spelledOut, branch_key_of_definition rfl, branch_key_of_definition rfl,
        (definition.means_same_spelled_out hinherited).resolve]
  | primitive | array | map | union => rfl

end Schema

/-- Two tours are alike if their stops are, and if they enter the same nodes. -/
structure Tour.Alike (tour other : Tour) : Prop where
  stops : List.Forall₂ Stop.Alike tour.stops other.stops
  entered : tour.entered = other.entered

namespace Tour.Alike

variable {tour other : Tour}

/-- Stops that are alike may be put in front. -/
theorem after {stop next : Stop} (hfirst : stop.Alike next) (h : tour.Alike other) :
    (tour.after stop).Alike (other.after next) :=
  ⟨.cons hfirst h.stops, h.entered⟩

/-- Tours may be made one after the other. -/
theorem and_then {next later : List NodeId → Tour} (h : tour.Alike other)
    (hnext : ∀ entered, (next entered).Alike (later entered)) :
    (tour.andThen next).Alike (other.andThen later) := by
  have hrest := hnext other.entered
  rw [← h.entered] at hrest
  refine ⟨List.rel_append h.stops ?_, ?_⟩
  · rw [← h.entered]
    exact hrest.stops
  · show (next tour.entered).entered = (later other.entered).entered
    rw [← h.entered]
    exact hrest.entered

/-- Two tours that turn back from a node that has been entered are alike if those are that enter
it. -/
theorem of_named {node : NodeId} {entered : List NodeId} (type second : Schema) (enclosing : String)
    (hinside : tour.Alike other) :
    (if entered.contains node then ⟨[.returned type enclosing], entered⟩ else tour).Alike
      (if entered.contains node then ⟨[.returned second enclosing], entered⟩ else other) := by
  split
  · exact ⟨.cons (fun _ _ _ => .nil) .nil, rfl⟩
  · exact hinside

end Tour.Alike

open Tour

mutual
/-- The tour of a type is like that of the type with all names spelled out. -/
theorem Schema.tour_alike_spelled_out {enclosing : String} (hinherited : Name.IsNamespace enclosing)
    (entered : List NodeId) (type : Schema) :
    (type.tour enclosing entered).Alike ((type.spelledOut enclosing).tour enclosing entered) := by
  cases type with
  | primitive node token => exact ⟨.cons (.refl _) .nil, rfl⟩
  | record node definition fields =>
      have hsame := definition.means_same_spelled_out hinherited
      -- The fields of both records are reached with the namespace that they are spelled out for.
      rw [Schema.spelledOut, Schema.tour, Schema.tour, ← hsame.inner_namespace]
      exact .of_named _ _ _ (.after (hsame.arrival rfl rfl rfl)
        (Field.tour_alike_spelled_out hsame (definition.is_namespace_inner_namespace hinherited) []
          (node :: entered) fields))
  | enum node definition symbols =>
      have hsame := definition.means_same_spelled_out hinherited
      rw [Schema.spelledOut, Schema.tour, Schema.tour]
      exact .of_named _ _ _ ⟨.cons (hsame.arrival rfl rfl rfl) (hsame.symbol_stops [] symbols), rfl⟩
  | fixed node definition size =>
      have hsame := definition.means_same_spelled_out hinherited
      rw [Schema.spelledOut, Schema.tour, Schema.tour]
      exact .of_named _ _ _ ⟨.cons (hsame.arrival rfl rfl rfl) .nil, rfl⟩
  | array node items =>
      rw [Schema.spelledOut, Schema.tour, Schema.tour]
      exact .after (fun _ _ _ => .nil)
        (Schema.tour_child_alike_spelled_out hinherited (.refl _) entered items)
  | map node values =>
      rw [Schema.spelledOut, Schema.tour, Schema.tour]
      exact .after (fun _ _ _ => .nil)
        (Schema.tour_child_alike_spelled_out hinherited (.refl _) entered values)
  | union node branches =>
      rw [Schema.spelledOut, Schema.tour, Schema.tour]
      exact .after (fun _ _ _ => .nil)
        (Schema.tour_branches_alike_spelled_out hinherited [] entered branches)

/-- So is the tour of a place where a type is due, if a missing type is reported in the same way. -/
theorem Schema.tour_child_alike_spelled_out {enclosing : String}
    (hinherited : Name.IsNamespace enclosing) {gap other : Gap}
    (hsameGap : (Stop.gap gap).Alike (.gap other)) (entered : List NodeId) (child : Option Schema) :
    (Schema.tourChild gap enclosing entered child).Alike
      (Schema.tourChild other enclosing entered (Schema.spelledOutChild enclosing child)) := by
  cases child with
  | none => exact ⟨.cons hsameGap .nil, rfl⟩
  | some type => exact Schema.tour_alike_spelled_out hinherited entered type

/-- So is the tour of fields in definitions that mean the same. -/
theorem Field.tour_alike_spelled_out {outer : String} {definition other : Definition}
    (hsame : definition.MeansSame outer other) {enclosing : String}
    (hinherited : Name.IsNamespace enclosing) (earlier : List String) (entered : List NodeId)
    (fields : List Field) :
    (Field.tour definition enclosing earlier entered fields).Alike
      (Field.tour other enclosing earlier entered (Field.spelledOut enclosing fields)) := by
  match fields with
  | [] => exact ⟨.nil, rfl⟩
  | ⟨name, type⟩ :: rest =>
      rw [Field.spelledOut, Field.tour, Field.tour]
      exact .after (hsame.field earlier name)
        (.and_then (Schema.tour_child_alike_spelled_out hinherited hsame.gap entered type)
          fun entered =>
            Field.tour_alike_spelled_out hsame hinherited (name :: earlier) entered rest)

/-- So is the tour of branches. -/
theorem Schema.tour_branches_alike_spelled_out {enclosing : String}
    (hinherited : Name.IsNamespace enclosing) (earlier : List String) (entered : List NodeId)
    (branches : List (Option Schema)) :
    (Schema.tourBranches enclosing earlier entered branches).Alike
      (Schema.tourBranches enclosing earlier entered
        (Schema.spelledOutBranches enclosing branches)) := by
  match branches with
  | [] => exact ⟨.nil, rfl⟩
  | none :: rest =>
      rw [Schema.spelledOutBranches, Schema.tourBranches, Schema.tourBranches]
      exact .after (.refl _)
        (Schema.tour_branches_alike_spelled_out hinherited earlier entered rest)
  | some type :: rest =>
      rw [Schema.spelledOutBranches, Schema.tourBranches, Schema.tourBranches,
        type.kind_spelled_out, type.branch_key_spelled_out hinherited]
      have hfirst := Schema.tour_alike_spelled_out hinherited entered type
      split
      · exact .after (.refl _) (hfirst.and_then fun entered =>
          Schema.tour_branches_alike_spelled_out hinherited earlier entered rest)
      · exact .after (.refl _) (hfirst.and_then fun entered =>
          Schema.tour_branches_alike_spelled_out hinherited (type.branchKey enclosing :: earlier)
            entered rest)
end

/-- Where events that are alike are cut off, they still are. -/
theorem through_first_failure_alike {events others : List Event}
    (h : List.Forall₂ Event.Alike events others) :
    List.Forall₂ Event.Alike (throughFirstFailure events) (throughFirstFailure others) := by
  induction h with
  | nil => exact .nil
  | cons hfirst _ ih =>
      cases hfirst with
      | traced => exact .cons .traced ih
      | failed hsame => exact .cons (.failed hsame) .nil
      | defined hsameNode => exact .cons (.defined hsameNode) ih

/-- Two reports are alike if they have the same diagnostics and the same nodes under the same
fullnames. -/
structure Report.Alike (report other : Report) : Prop where
  diagnostics : report.diagnostics = other.diagnostics
  names : report.names.nodes = other.names.nodes

/-- The reports on events that are alike are alike. -/
theorem Report.of_events_alike (mode : TraceMode) {events others : List Event}
    (h : List.Forall₂ Event.Alike events others) :
    (ofEvents mode events).Alike (ofEvents mode others) where
  diagnostics := by
    rw [ofEvents, ofEvents]
    induction h with
    | nil => rfl
    | cons hfirst _ ih =>
        cases hfirst with
        | traced => exact ih
        | failed hsame => exact congrArg₂ List.cons hsame ih
        | defined => exact ih
  names := NameTable.nodes_extend_eq rfl h

/-- A verifier reports the same on a schema as if all names in it were spelled out, and defines the
same fullnames for the same nodes. -/
theorem Schema.verify_spelled_out (options : Options) (root : Schema) :
    (root.verify options).Alike ((root.spelledOut "").verify options) := by
  have hevents : List.Forall₂ Event.Alike root.events (root.spelledOut "").events :=
    transcripts_alike (Schema.tour_alike_spelled_out (.inl rfl) [] root).stops rfl
  rw [verify_eq, verify_eq]
  split
  · exact Report.of_events_alike _ (through_first_failure_alike hevents)
  · exact Report.of_events_alike _ hevents

end AvroSchema
