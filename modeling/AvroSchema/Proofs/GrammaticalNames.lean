import AvroSchema.Proofs.DottedNames
import AvroSchema.Proofs.Reports
import AvroSchema.Proofs.Visits

/-!
# Which names get past a verification

However malformed the names in a schema are, a verification hands down only namespaces that are
empty or dotted, and defines only dotted names. The main statement is `names_grammatical`. It rests
on the definitions with acceptable names handing down such a namespace whenever they are reached
with one (`Definition.is_namespace_inner_namespace`).
-/

namespace AvroSchema

/-- What a definition hands down is a namespace if it is reached with one. -/
theorem Definition.is_namespace_inner_namespace (definition : Definition) {enclosing : String}
    (hinherited : Name.IsNamespace enclosing) :
    Name.IsNamespace (definition.innerNamespace enclosing) := by
  rw [innerNamespace]
  cases haccepted : definition.nameError? with
  | some cause => exact hinherited
  | none =>
      obtain ⟨hdotted, hexplicit, -, -⟩ := (definition.name_error_eq_none_iff enclosing).1 haccepted
      exact QualifiedName.is_namespace_ns_resolve hdotted hexplicit hinherited

/-- A tour that is made with a namespace makes all its visits with namespaces. -/
theorem Tour.Follows.is_namespace {enclosing : String} {entered : List NodeId} {tour : Tour}
    (hfollows : Follows enclosing entered tour) (hinherited : Name.IsNamespace enclosing) :
    ∀ visit ∈ tour.visits, Name.IsNamespace visit.enclosing := by
  induction hfollows with
  | rest => exact nofun
  | pass hsilent _ ih =>
      rw [visits_after, hsilent]
      exact ih hinherited
  | turnBack => exact List.forall_mem_singleton.2 hinherited
  | goThrough _ _ ih => exact List.forall_mem_cons.2 ⟨hinherited, ih hinherited⟩
  | @enter enclosing entered tour type definition _ _ _ ih =>
      exact List.forall_mem_cons.2
        ⟨hinherited, ih (definition.is_namespace_inner_namespace hinherited)⟩
  | andThen _ _ ih ihNext =>
      rw [visits_and_then]
      exact List.forall_mem_append.2 ⟨ih hinherited, ihNext hinherited⟩

/-- The fullname that a definition with acceptable names resolves to is the name of the definition,
without a dot, or is cut into what the definition resolves to. -/
theorem Definition.of_dotted_fullname_resolve {definition : Definition}
    (haccepted : definition.nameError? = none) (enclosing : String) :
    (QualifiedName.ofDotted? (definition.resolve enclosing).fullname = none ∧
      (definition.resolve enclosing).fullname = definition.name) ∨
    QualifiedName.ofDotted? (definition.resolve enclosing).fullname =
      some (definition.resolve enclosing) := by
  have hsimple : '.' ∉ (definition.resolve enclosing).short.toList :=
    QualifiedName.dot_not_mem_short_resolve _ _ _
  by_cases hunqualified : (definition.resolve enclosing).ns = ""
  · left
    rw [QualifiedName.fullname_of_ns_eq_empty hunqualified]
    refine ⟨QualifiedName.of_dotted_eq_none_iff.2 hsimple, ?_⟩
    cases h : QualifiedName.ofDotted? definition.name with
    | none =>
        exact congrArg QualifiedName.short
          (QualifiedName.resolve_of_simple h definition.ns enclosing)
    | some name =>
        -- A dotted name with nothing in front of its last dot is not acceptable.
        have hresolved := QualifiedName.resolve_of_dotted h definition.ns enclosing
        have hempty : name.ns = "" := hresolved ▸ hunqualified
        have hdotted := ((definition.name_error_eq_none_iff enclosing).1 haccepted).1
        exact absurd hempty (QualifiedName.ns_ne_empty_of_is_dotted h hdotted)
  · exact .inr (QualifiedName.of_dotted_fullname hsimple hunqualified)

namespace Schema

/-- An entry of a name table is grammatical if its key is a dotted name whose last piece is not
reserved. The key is the name of the type as it was written, if it has no dot, or else it is cut
into the short name and the namespace that the type resolves to where it is visited first. -/
def GrammaticalEntry (root : Schema) (entry : String × Schema) : Prop :=
  Name.isDotted entry.1 ∧ ¬ Name.isReserved (Name.lastPiece entry.1) ∧
    ∃ enclosing, ⟨entry.2, enclosing⟩ ∈ root.firstVisits ∧
      ((QualifiedName.ofDotted? entry.1 = none ∧ entry.1 = entry.2.name) ∨
        QualifiedName.ofDotted? entry.1 = some (entry.2.resolve enclosing))

variable {root : Schema}

/-- All visits are made with namespaces. -/
theorem is_namespace_of_mem_visits {visit : Arrival} (h : visit ∈ root.visits) :
    Name.IsNamespace visit.enclosing :=
  (root.follows_tour "" []).is_namespace (.inl rfl) visit h

/-- What a type asks for is a grammatical entry. -/
theorem grammatical_entry_of_mem_registrations {registration : Registration}
    (h : registration ∈ root.registrations) : root.GrammaticalEntry registration.entry := by
  obtain ⟨arrival, harrival, hasked⟩ := List.mem_filterMap.1 h
  obtain ⟨definition, hdefinition, haccepted, rfl⟩ := Arrival.registration_eq_some_iff.1 hasked
  have hfirst : arrival ∈ root.firstVisits := by
    rw [first_visits_eq]
    exact List.mem_filter.2 ⟨harrival, is_named_of_definition hdefinition⟩
  have hinherited := is_namespace_of_mem_visits (mem_visits_of_mem_first_visits hfirst).1
  obtain ⟨hdotted, hexplicit, -, hunreserved⟩ :=
    (definition.name_error_eq_none_iff arrival.enclosing).1 haccepted
  refine ⟨QualifiedName.is_dotted_fullname_resolve hdotted hexplicit hinherited, ?_,
    arrival.enclosing, hfirst, ?_⟩
  · have hlastPiece : Name.lastPiece (definition.resolve arrival.enclosing).fullname =
        (definition.resolve arrival.enclosing).short :=
      QualifiedName.last_piece_fullname (QualifiedName.dot_not_mem_short_resolve _ _ _)
    show ¬ Name.isReserved (Name.lastPiece (definition.resolve arrival.enclosing).fullname)
    rw [hlastPiece]
    exact hunreserved
  · show (_ ∧ (definition.resolve arrival.enclosing).fullname = arrival.type.name) ∨
      _ = some (arrival.type.resolve arrival.enclosing)
    rw [resolve_of_definition hdefinition, name_of_definition hdefinition]
    exact definition.of_dotted_fullname_resolve haccepted arrival.enclosing

/-- Whatever has happened so far during a verification, only grammatical entries have been made. -/
theorem grammatical_entry_of_prefix {seen : List Event} (h : seen <+: root.events)
    {entry : String × Schema} (hentry : entry ∈ (NameTable.empty.extend seen).entries) :
    root.GrammaticalEntry entry := by
  obtain ⟨later, hwhole⟩ := h
  have hfinal : entry ∈ (NameTable.empty.extend root.events).entries := by
    rw [← hwhole, NameTable.extend_append]
    exact List.mem_append_left _ hentry
  rw [entries_events] at hfinal
  obtain ⟨registration, hfirst, rfl⟩ := List.mem_map.1 hfinal
  exact grammatical_entry_of_mem_registrations ((firsts_sublist _ _).mem hfirst)

/-- Only grammatical names get past a verification. However malformed the names in a schema are, all
visits are made with a namespace that is empty or dotted, and every entry that is in the name table
after a verification, or at any moment during one, is grammatical. -/
theorem names_grammatical (root : Schema) :
    (∀ visit ∈ root.visits, visit.enclosing = "" ∨ Name.isDotted visit.enclosing) ∧
    (∀ seen, seen <+: root.events →
      ∀ entry ∈ (NameTable.empty.extend seen).entries, root.GrammaticalEntry entry) ∧
    ∀ options, ∀ entry ∈ (root.verify options).names.entries, root.GrammaticalEntry entry := by
  refine ⟨fun visit h => is_namespace_of_mem_visits h, fun seen h entry hentry =>
    grammatical_entry_of_prefix h hentry, ?_⟩
  intro options entry hentry
  obtain ⟨omitted, hwhole⟩ := through_first_failure_append root.events
  rw [verify_eq] at hentry
  split at hentry
  · exact grammatical_entry_of_prefix ⟨omitted, hwhole⟩ hentry
  · exact grammatical_entry_of_prefix List.prefix_rfl hentry

/-- A fixed named inside the namespace of a depot. -/
def plate : Schema :=
  .fixed 2 (.declare "Plate" "" "city.port" .unknown) 8

/-- A record in a namespace, holding one with a malformed name that holds a fixed. -/
def depot : Schema :=
  .record 0 (.declare "city.port.Depot" "" "" .unknown)
    [⟨"crate", some (.record 1 (.declare "1st crate" "" "city.port" .unknown)
      [⟨"plate", some plate⟩])⟩]

/-- A fixed inherits the namespace of a depot through a record whose name is refused. The depot is
in the name table from its own arrival on, and a verification that goes on past the refusal enters
the fixed under a fullname in the namespace. -/
theorem names_grammatical_depot :
    (⟨plate, "city.port"⟩ ∈ depot.visits ∧ ("city.port" = "" ∨ Name.isDotted "city.port")) ∧
    (("city.port.Depot", depot) ∈ (NameTable.empty.extend (depot.events.take 2)).entries ∧
      depot.GrammaticalEntry ("city.port.Depot", depot)) ∧
    ("city.port.Plate", plate) ∈ (depot.verify ⟨false, false⟩).names.entries ∧
      depot.GrammaticalEntry ("city.port.Plate", plate) := by
  obtain ⟨hvisits, hduring, hafter⟩ := depot.names_grammatical
  have hvisited : ⟨plate, "city.port"⟩ ∈ depot.visits := .tail _ (.tail _ (.head _))
  have hearly : ("city.port.Depot", depot) ∈
      (NameTable.empty.extend (depot.events.take 2)).entries := .head _
  have hlate : ("city.port.Plate", plate) ∈ (depot.verify ⟨false, false⟩).names.entries :=
    .tail _ (.head _)
  exact ⟨⟨hvisited, hvisits _ hvisited⟩, ⟨hearly, hduring _ (List.take_prefix 2 _) _ hearly⟩, hlate,
    hafter _ _ hlate⟩

end Schema

end AvroSchema
