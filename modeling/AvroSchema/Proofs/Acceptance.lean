import Mathlib.Algebra.Order.BigOperators.Group.List
import Mathlib.Data.Multiset.OrderedMonoid
import AvroSchema.Proofs.Registrations
import AvroSchema.Proofs.Reports

/-!
# Which schemas are accepted

`Schema.WellFormed` lists what the types below a root have to fulfil, each rule about the types it
concerns. Where a rule depends on a namespace, it is that of the walk in which every definition
hands down the namespace it stands in itself. The main statement says that a coherent schema is
accepted if and only if it is well formed (`outcome_verify_eq_ok_iff_well_formed`).
-/

namespace AvroSchema

/-- The namespace that a definition stands in when it is reached with an enclosing namespace. -/
def Definition.ownNamespace (definition : Definition) (enclosing : String) : String :=
  (definition.resolve enclosing).ns

/-- The rules for the types below a root. -/
structure Schema.WellFormed (root : Schema) : Prop where
  /-- Every definition has acceptable names, and records the fullname that it resolves to where it
  is first reached. -/
  definitions : ∀ arrival ∈ root.arrivals Definition.ownNamespace, ∀ definition,
    arrival.type.definition? = some definition → definition.nameError? = none ∧
      definition.fullname = (definition.resolve arrival.enclosing).fullname
  /-- Different definitions have different fullnames. -/
  fullnames : ∀ first ∈ root.definitions, ∀ second ∈ root.definitions,
    first.node ≠ second.node → first.fullname ≠ second.fullname
  /-- The fields of a record have types and different simple names. -/
  records : ∀ node definition fields, root.Reaches (.record node definition fields) →
    (∀ field ∈ fields, Name.isSimple field.name ∧ field.type ≠ none) ∧
      (fields.map Field.name).Nodup
  /-- The symbols of an enum are different simple names. -/
  enums : ∀ node definition symbols, root.Reaches (.enum node definition symbols) →
    (∀ symbol ∈ symbols, Name.isSimple symbol) ∧ symbols.Nodup
  /-- An array has items. -/
  arrays : ∀ node items, root.Reaches (.array node items) → items ≠ none
  /-- A map has values. -/
  maps : ∀ node values, root.Reaches (.map node values) → values ≠ none
  /-- The branches of a union are there and no unions, and whenever the union is reached they have
  different keys. -/
  unions : ∀ node branches enclosing,
    ⟨.union node branches, enclosing⟩ ∈ root.arrivals Definition.ownNamespace →
      (∀ branch ∈ branches, ∃ type, branch = some type ∧ type.kind ≠ .union) ∧
        ((branches.filterMap id).map fun type => type.branchKey enclosing).Nodup
  /-- A primitive type has a primitive token. -/
  primitives : ∀ node token, root.Reaches (.primitive node token) → Name.isPrimitive token

/-- Only zero copies of a failure are none. -/
theorem replicate_failure_eq_zero_iff {n : Nat} {failure : Failure} :
    Multiset.replicate n failure = 0 ↔ n = 0 := by
  rw [← Multiset.card_eq_zero, Multiset.card_replicate]

/-- Nothing is wrong with names if and only if they are simple and differ. -/
theorem name_failures_eq_zero_iff (malformed duplicate : String → Failure) (names : List String) :
    nameFailures malformed duplicate [] names = 0 ↔
      (∀ name ∈ names, Name.isSimple name) ∧ names.Nodup := by
  have hsimple_iff : names.filter (fun name => !Name.isSimple name) = [] ↔
      ∀ name ∈ names, Name.isSimple name := by
    simp [List.filter_eq_nil_iff]
  rw [nameFailures, add_eq_zero, Multiset.coe_eq_zero, Multiset.coe_eq_zero,
    List.map_eq_nil_iff, List.map_eq_nil_iff, repeats_eq_nil_iff, hsimple_iff, List.map_id]
  constructor
  · rintro ⟨hsimple, hdistinct, -⟩
    rw [List.filter_eq_self.2 hsimple] at hdistinct
    exact ⟨hsimple, hdistinct⟩
  · rintro ⟨hsimple, hdistinct⟩
    rw [List.filter_eq_self.2 hsimple]
    exact ⟨hsimple, hdistinct, by simp⟩

/-- Nothing is wrong with a definition if and only if its names are acceptable and it records the
fullname that it resolves to. -/
theorem Definition.failures_eq_nil_iff (definition : Definition) (enclosing : String) :
    definition.failures enclosing = [] ↔ definition.nameError? = none ∧
      definition.fullname = (definition.resolve enclosing).fullname := by
  unfold failures
  cases definition.nameError? with
  | some cause => simp
  | none => simp

namespace Arrival

/-- What a primitive type has to fulfil. -/
theorem failures_primitive_eq_zero_iff (node : NodeId) (token enclosing : String) :
    failures ⟨.primitive node token, enclosing⟩ = 0 ↔ Name.isPrimitive token := by
  simp [failures]

/-- What an array has to fulfil. -/
theorem failures_array_eq_zero_iff (node : NodeId) (items : Option Schema) (enclosing : String) :
    failures ⟨.array node items, enclosing⟩ = 0 ↔ items ≠ none := by
  cases items <;> simp [failures, Schema.gaps]

/-- What a map has to fulfil. -/
theorem failures_map_eq_zero_iff (node : NodeId) (values : Option Schema) (enclosing : String) :
    failures ⟨.map node values, enclosing⟩ = 0 ↔ values ≠ none := by
  cases values <;> simp [failures, Schema.gaps]

/-- What a record has to fulfil where it is reached. -/
theorem failures_record_eq_zero_iff (node : NodeId) (definition : Definition)
    (fields : List Field) (enclosing : String) :
    failures ⟨.record node definition fields, enclosing⟩ = 0 ↔
      definition.failures enclosing = [] ∧
        (∀ field ∈ fields, Name.isSimple field.name ∧ field.type ≠ none) ∧
          (fields.map Field.name).Nodup := by
  rw [failures, add_eq_zero, add_eq_zero, name_failures_eq_zero_iff,
    Multiset.coe_eq_zero, replicate_failure_eq_zero_iff, Schema.gaps, List.countP_eq_zero,
    Schema.fieldNames, List.forall_mem_map]
  constructor
  · rintro ⟨⟨hsound, hsimple, hdistinct⟩, htyped⟩
    exact ⟨hsound, fun field h => ⟨hsimple field h, by simpa using htyped field h⟩, hdistinct⟩
  · rintro ⟨hsound, heach, hdistinct⟩
    exact ⟨⟨hsound, fun field h => (heach field h).1, hdistinct⟩,
      fun field h => by simpa using (heach field h).2⟩

/-- What an enum has to fulfil where it is reached. -/
theorem failures_enum_eq_zero_iff (node : NodeId) (definition : Definition)
    (symbols : List String) (enclosing : String) :
    failures ⟨.enum node definition symbols, enclosing⟩ = 0 ↔
      definition.failures enclosing = [] ∧
        (∀ symbol ∈ symbols, Name.isSimple symbol) ∧ symbols.Nodup := by
  rw [failures, add_eq_zero, name_failures_eq_zero_iff, Multiset.coe_eq_zero]
  rfl

/-- What a union has to fulfil where it is reached. -/
theorem failures_union_eq_zero_iff (node : NodeId) (branches : List (Option Schema))
    (enclosing : String) :
    failures ⟨.union node branches, enclosing⟩ = 0 ↔
      (∀ branch ∈ branches, ∃ type, branch = some type ∧ type.kind ≠ .union) ∧
        ((branches.filterMap id).map fun type => type.branchKey enclosing).Nodup := by
  rw [failures, add_eq_zero, add_eq_zero, replicate_failure_eq_zero_iff,
    replicate_failure_eq_zero_iff, Multiset.coe_eq_zero, List.map_eq_nil_iff, repeats_eq_nil_iff,
    Schema.nestedUnions, Schema.gaps, List.countP_eq_zero, List.countP_eq_zero, Schema.branchKeys,
    Schema.children, List.map_id]
  constructor
  · rintro ⟨⟨hflat, hdistinct, -⟩, hpresent⟩
    -- Without nested unions, the keys are those of all branches.
    have hwhole : (branches.filterMap id).filter (fun branch => branch.kind ≠ .union) =
        branches.filterMap id :=
      List.filter_eq_self.2 (by simpa using hflat)
    rw [hwhole] at hdistinct
    refine ⟨fun branch h => ?_, hdistinct⟩
    cases branch with
    | none => exact absurd rfl (hpresent none h)
    | some type => exact ⟨type, rfl, by simpa using hflat type (List.mem_filterMap.2 ⟨_, h, rfl⟩)⟩
  · rintro ⟨heach, hdistinct⟩
    have hflat : ∀ type ∈ branches.filterMap id, type.kind ≠ .union := by
      intro type h
      obtain ⟨branch, hbranch, hsame⟩ := List.mem_filterMap.1 h
      obtain ⟨other, rfl, hnotUnion⟩ := heach branch hbranch
      cases hsame
      exact hnotUnion
    have hwhole : (branches.filterMap id).filter (fun branch => branch.kind ≠ .union) =
        branches.filterMap id :=
      List.filter_eq_self.2 (by simpa using hflat)
    rw [hwhole]
    refine ⟨⟨by simpa using hflat, hdistinct, by simp⟩, fun branch h => ?_⟩
    obtain ⟨type, rfl, -⟩ := heach branch h
    simp

end Arrival

namespace Schema

variable {root : Schema}

/-- Nothing is wrong with a schema if and only if nothing is wrong at its arrivals and no fullname
is asked for twice. -/
theorem failures_eq_nil_iff :
    root.failures = [] ↔
      (∀ arrival ∈ root.arrivals Definition.innerNamespace, arrival.failures = 0) ∧
        (root.registrations.map Registration.fullname).Nodup := by
  rw [failures, ← Multiset.coe_eq_zero, failures_events, add_eq_zero,
    List.sum_eq_zero_iff, List.forall_mem_map, Multiset.coe_eq_zero, List.map_eq_nil_iff,
    repeats_eq_nil_iff]
  simp

/-- If nothing is wrong with a definition where it is reached, its names are acceptable and it
records the fullname that it resolves to. -/
theorem definition_sound_of_failures_eq_zero {arrival : Arrival} (h : arrival.failures = 0)
    {definition : Definition} (hdefinition : arrival.type.definition? = some definition) :
    definition.nameError? = none ∧
      definition.fullname = (definition.resolve arrival.enclosing).fullname := by
  obtain ⟨type, enclosing⟩ := arrival
  rw [← Definition.failures_eq_nil_iff]
  cases type with
  | record node definition fields =>
      cases hdefinition
      exact (Arrival.failures_record_eq_zero_iff _ _ _ _).1 h |>.1
  | enum node definition symbols =>
      cases hdefinition
      exact (Arrival.failures_enum_eq_zero_iff _ _ _ _).1 h |>.1
  | fixed node definition size =>
      cases hdefinition
      have hnone : (definition.failures enclosing : Multiset Failure) = 0 := h
      exact (Multiset.coe_eq_zero _).1 hnone
  | primitive | array | map | union => cases hdefinition

/-- The names of the definitions below a root are sound on a walk: they are acceptable, and where
the walk enters a definition, it resolves to the fullname that it records. -/
def NamesSound (inherit : Inheritance) (root : Schema) : Prop :=
  ∀ arrival ∈ root.arrivals inherit, ∀ definition, arrival.type.definition? = some definition →
    definition.nameError? = none ∧
      definition.fullname = (definition.resolve arrival.enclosing).fullname

/-- Where names are sound, it makes no difference to the walk that the verifier does not use the
namespaces of definitions that are refused. -/
theorem Coherent.arrivals_inner_namespace_eq (hcoherent : root.Coherent) {inherit : Inheritance}
    (hsound : root.NamesSound inherit) :
    root.arrivals Definition.innerNamespace = root.arrivals Definition.ownNamespace := by
  refine Arrival.walk_congr fun arrival h definition hdefinition => ?_
  obtain ⟨other, harrival, hsameType⟩ :=
    @hcoherent.exists_arrival_of_reaches inherit _ _ (reaches_of_mem_arrivals h)
  rw [← hsameType] at hdefinition
  have haccepted := (hsound other harrival definition hdefinition).1
  simp [Definition.innerNamespace, haccepted, Definition.ownNamespace]

/-- Where nothing is wrong, names are sound. -/
theorem names_sound_of_failures_eq_nil (h : root.failures = []) :
    root.NamesSound Definition.innerNamespace := by
  intro arrival harrival definition hdefinition
  exact definition_sound_of_failures_eq_zero ((failures_eq_nil_iff.1 h).1 arrival harrival)
    hdefinition

/-- Where names are sound, every named type asks for the fullname recorded for it. -/
theorem Coherent.exists_registration (hcoherent : root.Coherent)
    (hsound : root.NamesSound Definition.innerNamespace) {type : Schema}
    (h : type ∈ root.definitions) :
    ∃ registration ∈ root.registrations,
      registration.type = type ∧ registration.fullname = type.fullname := by
  obtain ⟨arrival, harrival, rfl⟩ := hcoherent.exists_arrival_of_reaches h.1
  obtain ⟨definition, hdefinition⟩ := Option.isSome_iff_exists.1 h.2
  obtain ⟨haccepted, hresolved⟩ := hsound arrival harrival definition hdefinition
  refine ⟨_, List.mem_filterMap.2
    ⟨arrival, harrival, Arrival.registration_of_accepted hdefinition haccepted⟩, rfl, ?_⟩
  rw [fullname_of_definition hdefinition, hresolved]

/-- Where names are sound, only named types ask for a fullname, and only for the recorded one. -/
theorem NamesSound.registration (hsound : root.NamesSound Definition.innerNamespace)
    {registration : Registration} (h : registration ∈ root.registrations) :
    registration.type ∈ root.definitions ∧
      registration.fullname = registration.type.fullname := by
  obtain ⟨arrival, harrival, hasks⟩ := List.mem_filterMap.1 h
  obtain ⟨definition, hdefinition, -, rfl⟩ := Arrival.registration_eq_some_iff.1 hasks
  refine ⟨⟨reaches_of_mem_arrivals harrival, is_named_of_definition hdefinition⟩, ?_⟩
  rw [fullname_of_definition hdefinition]
  exact (hsound arrival harrival definition hdefinition).2.symm

/-- If nothing is wrong with a coherent schema, it is well formed. -/
theorem Coherent.well_formed_of_failures_eq_nil (hcoherent : root.Coherent)
    (h : root.failures = []) : root.WellFormed := by
  obtain ⟨hsound, hdistinct⟩ := failures_eq_nil_iff.1 h
  have hnames := names_sound_of_failures_eq_nil h
  have hreached : ∀ type, root.Reaches type →
      ∃ arrival ∈ root.arrivals Definition.innerNamespace, arrival.type = type :=
    fun type hbelow => hcoherent.exists_arrival_of_reaches hbelow
  have hsameWalk := hcoherent.arrivals_inner_namespace_eq hnames
  refine ⟨?_, ?_, ?_, ?_, ?_, ?_, ?_, ?_⟩
  · intro arrival harrival
    rw [← hsameWalk] at harrival
    exact hnames arrival harrival
  · intro first hfirst second hsecond hdiffer hsame
    obtain ⟨one, hasked, rfl, hfullname⟩ := hcoherent.exists_registration hnames hfirst
    obtain ⟨other, halsoAsked, rfl, hotherFullname⟩ :=
      hcoherent.exists_registration hnames hsecond
    have hone_eq_other : one = other :=
      List.inj_on_of_nodup_map hdistinct hasked halsoAsked
        (by rw [hfullname, hotherFullname, hsame])
    exact hdiffer (by rw [hone_eq_other])
  · intro node definition fields hbelow
    obtain ⟨⟨type, enclosing⟩, harrival, rfl⟩ := hreached _ hbelow
    exact ((Arrival.failures_record_eq_zero_iff _ _ _ _).1 (hsound _ harrival)).2
  · intro node definition symbols hbelow
    obtain ⟨⟨type, enclosing⟩, harrival, rfl⟩ := hreached _ hbelow
    exact ((Arrival.failures_enum_eq_zero_iff _ _ _ _).1 (hsound _ harrival)).2
  · intro node items hbelow
    obtain ⟨⟨type, enclosing⟩, harrival, rfl⟩ := hreached _ hbelow
    exact (Arrival.failures_array_eq_zero_iff _ _ _).1 (hsound _ harrival)
  · intro node values hbelow
    obtain ⟨⟨type, enclosing⟩, harrival, rfl⟩ := hreached _ hbelow
    exact (Arrival.failures_map_eq_zero_iff _ _ _).1 (hsound _ harrival)
  · intro node branches enclosing harrival
    rw [← hsameWalk] at harrival
    exact (Arrival.failures_union_eq_zero_iff _ _ _).1 (hsound _ harrival)
  · intro node token hbelow
    obtain ⟨⟨type, enclosing⟩, harrival, rfl⟩ := hreached _ hbelow
    exact (Arrival.failures_primitive_eq_zero_iff _ _ _).1 (hsound _ harrival)

/-- Nothing is wrong with a well-formed schema. -/
theorem WellFormed.failures_eq_nil (hcoherent : root.Coherent) (h : root.WellFormed) :
    root.failures = [] := by
  have hsameWalk := hcoherent.arrivals_inner_namespace_eq h.definitions
  have hnames : root.NamesSound Definition.innerNamespace := by
    rw [NamesSound, hsameWalk]
    exact h.definitions
  have hsound : ∀ arrival ∈ root.arrivals Definition.innerNamespace, ∀ definition,
      arrival.type.definition? = some definition → definition.failures arrival.enclosing = [] :=
    fun arrival harrival definition hdefinition =>
      (definition.failures_eq_nil_iff _).2 (hnames arrival harrival definition hdefinition)
  refine failures_eq_nil_iff.2 ⟨?_, ?_⟩
  · rintro ⟨type, enclosing⟩ harrival
    have hbelow := reaches_of_mem_arrivals harrival
    cases type with
    | primitive node token =>
        exact (Arrival.failures_primitive_eq_zero_iff _ _ _).2 (h.primitives _ _ hbelow)
    | record node definition fields =>
        exact (Arrival.failures_record_eq_zero_iff _ _ _ _).2
          ⟨hsound _ harrival definition rfl, h.records _ _ _ hbelow⟩
    | enum node definition symbols =>
        exact (Arrival.failures_enum_eq_zero_iff _ _ _ _).2
          ⟨hsound _ harrival definition rfl, h.enums _ _ _ hbelow⟩
    | fixed node definition size =>
        show (definition.failures enclosing : Multiset Failure) = 0
        exact (Multiset.coe_eq_zero _).2 (hsound _ harrival definition rfl)
    | array node items =>
        exact (Arrival.failures_array_eq_zero_iff _ _ _).2 (h.arrays _ _ hbelow)
    | map node values =>
        exact (Arrival.failures_map_eq_zero_iff _ _ _).2 (h.maps _ _ hbelow)
    | union node branches =>
        rw [hsameWalk] at harrival
        exact (Arrival.failures_union_eq_zero_iff _ _ _).2 (h.unions _ _ _ harrival)
  · have hnodup := nodup_nodes_registrations root
    refine List.Nodup.map_on (fun one hasked other halsoAsked hsame => ?_) hnodup.of_map
    obtain ⟨hdefinition, hfullname⟩ := hnames.registration hasked
    obtain ⟨hotherDefinition, hotherFullname⟩ := hnames.registration halsoAsked
    -- A node asks for a name only once, and different nodes have different fullnames.
    by_cases hsameNode : one.type.node = other.type.node
    · exact List.inj_on_of_nodup_map hnodup hasked halsoAsked hsameNode
    · rw [hfullname, hotherFullname] at hsame
      exact absurd hsame (h.fullnames _ hdefinition _ hotherDefinition hsameNode)

/-- A coherent schema is accepted if and only if it is well formed, whatever the options are. -/
theorem outcome_verify_eq_ok_iff_well_formed (hcoherent : root.Coherent) (options : Options) :
    (root.verify options).outcome = .ok () ↔ root.WellFormed := by
  rw [outcome_verify_eq_ok_iff]
  exact ⟨hcoherent.well_formed_of_failures_eq_nil, WellFormed.failures_eq_nil hcoherent⟩

/-- The record with two uses of one fixed is accepted, and so it is well formed. -/
theorem well_formed_segment : segment.Coherent ∧ segment.WellFormed :=
  ⟨coherent_segment, (outcome_verify_eq_ok_iff_well_formed coherent_segment {}).1 rfl⟩

end Schema

end AvroSchema
