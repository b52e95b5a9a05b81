import AvroSchema.Proofs.Acceptance
import AvroSchema.Proofs.FailureCounts

/-!
# Which names are defined

A verification of a whole schema gives every fullname that is asked for to the named type that asks
for it first. The main statement, `Coherent.names_verify`, says so, and that every named type below
the root either gets the fullname it asks for or is reported for its name. In a schema that is
accepted, every named type has got the fullname recorded for it.
-/

namespace AvroSchema

/-- An arrival at a named type with acceptable names asks for the fullname that the type resolves to
there. -/
def Arrival.AsksFor (arrival : Arrival) (fullname : String) : Prop :=
  arrival.type.isNamed ∧ arrival.type.nameError? = none ∧
    (arrival.type.resolve arrival.enclosing).fullname = fullname

/-- A type is the first to ask for a fullname if it asks for it where the walk arrives at it, and
nothing that the walk arrives at before does. -/
def Schema.FirstToAsk (root type : Schema) (fullname : String) : Prop :=
  ∃ before enclosing after,
    root.arrivals Definition.innerNamespace = before ++ ⟨type, enclosing⟩ :: after ∧
      Arrival.AsksFor ⟨type, enclosing⟩ fullname ∧
        ∀ earlier ∈ before, ¬ earlier.AsksFor fullname

/-- What an arrival asks for is found by its fullname. -/
theorem Arrival.registration_any_iff {arrival : Arrival} {fullname : String} :
    arrival.registration?.any (fun registration => registration.fullname = fullname) ↔
      arrival.AsksFor fullname := by
  cases h : arrival.type.definition? with
  | none => simp [registration_of_unnamed h, AsksFor, Schema.isNamed, h]
  | some definition =>
      cases haccepted : definition.nameError? with
      | some cause =>
          simp [registration_of_refused h haccepted, AsksFor, Schema.nameError?, h, haccepted]
      | none =>
          simp [registration_of_accepted h haccepted, AsksFor, Schema.nameError?, h, haccepted,
            Schema.isNamed, Schema.resolve_of_definition h]

/-- A search among the entries that registrations ask for is a search among the registrations. -/
theorem Registration.lookup_map_entry (fullname : String) (registrations : List Registration) :
    (registrations.map entry).lookup fullname =
      (registrations.find? fun registration => registration.fullname = fullname).map type := by
  induction registrations with
  | nil => rfl
  | cons registration rest ih =>
      by_cases hsame : registration.fullname = fullname
      · simp [entry, hsame]
      · have hother : (fullname == registration.fullname) = false := by simpa using Ne.symm hsame
        simp [entry, hsame, hother, ih, List.lookup_cons]

namespace Schema

variable {root : Schema}

/-- The names of a whole verification belong to the first ones to ask for them. -/
theorem entries_verify (trace : Bool) (root : Schema) :
    (root.verify ⟨trace, false⟩).names.entries =
      (firsts Registration.fullname [] root.registrations).map Registration.entry := by
  rw [verify_eq]
  show (NameTable.empty.extend root.events).entries = _
  exact root.entries_events

/-- The defined fullnames are those that are asked for, each where it is first asked for. -/
theorem fullnames_verify (trace : Bool) (root : Schema) :
    (root.verify ⟨trace, false⟩).names.fullnames =
      (firsts Registration.fullname [] root.registrations).map Registration.fullname := by
  rw [NameTable.fullnames, entries_verify, List.map_map]
  rfl

/-- No fullname has two entries. -/
theorem nodup_fullnames_verify (trace : Bool) (root : Schema) :
    (root.verify ⟨trace, false⟩).names.fullnames.Nodup := by
  rw [fullnames_verify]
  exact nodup_keys_firsts [] root.registrations

/-- A fullname is defined if and only if it is asked for. -/
theorem mem_fullnames_verify_iff (trace : Bool) (root : Schema) (k : String) :
    k ∈ (root.verify ⟨trace, false⟩).names.fullnames ↔
      k ∈ root.registrations.map Registration.fullname := by
  rw [fullnames_verify, mem_keys_firsts, and_iff_left List.not_mem_nil]

/-- A fullname belongs to the first type to ask for it. -/
theorem find_verify_eq_some_iff (trace : Bool) (root type : Schema) (fullname : String) :
    (root.verify ⟨trace, false⟩).names.find? fullname = some type ↔
      root.FirstToAsk type fullname := by
  have hfound : (root.verify ⟨trace, false⟩).names.find? fullname =
      (((root.arrivals Definition.innerNamespace).find? fun arrival =>
        arrival.registration?.any fun registration => registration.fullname = fullname).bind
          Arrival.registration?).map Registration.type := by
    rw [NameTable.find?, entries_verify, Registration.lookup_map_entry,
      find_firsts List.not_mem_nil, registrations, List.find?_filterMap]
  rw [hfound]
  constructor
  · intro h
    obtain ⟨registration, hasksFirst, rfl⟩ := Option.map_eq_some_iff.1 h
    obtain ⟨arrival, hisFirst, hasked⟩ := Option.bind_eq_some_iff.1 hasksFirst
    obtain ⟨hasks, before, after, hparted, hfirst⟩ := List.find?_eq_some_iff_append.1 hisFirst
    rw [Arrival.type_of_registration hasked]
    refine ⟨before, arrival.enclosing, after, hparted, Arrival.registration_any_iff.1 hasks, ?_⟩
    intro earlier h halsoAsks
    simpa [Arrival.registration_any_iff.2 halsoAsks] using hfirst earlier h
  · rintro ⟨before, enclosing, after, hparted, hasks, hfirst⟩
    have hasksNow := Arrival.registration_any_iff.2 hasks
    obtain ⟨registration, hasked, -⟩ := Option.any_eq_true .. |>.1 hasksNow
    have hisFirst : (root.arrivals Definition.innerNamespace).find? (fun arrival =>
        arrival.registration?.any fun registration => registration.fullname = fullname) =
          some ⟨type, enclosing⟩ := by
      refine List.find?_eq_some_iff_append.2 ⟨hasksNow, before, after, hparted, ?_⟩
      intro earlier h
      rw [Bool.not_eq_true', Bool.eq_false_iff]
      intro halsoAsks
      exact hfirst earlier h (Arrival.registration_any_iff.1 halsoAsks)
    rw [hisFirst, Option.bind_some, hasked, Option.map_some, Arrival.type_of_registration hasked]

/-- A named type either asks for a fullname or has its names refused under one of two codes, and
any other type does neither. -/
theorem countp_is_named_singleton (arrival : Arrival) :
    [arrival].countP (fun arrival => arrival.type.isNamed) =
      arrival.registration?.toList.length + arrival.tally .malformedName +
        arrival.tally .reservedName := by
  cases h : arrival.type.definition? with
  | none =>
      simp [isNamed, h, Arrival.registration_of_unnamed h, Arrival.tally, refusal?, nameError?]
  | some definition =>
      cases haccepted : definition.nameError? with
      | none =>
          simp [isNamed, h, Arrival.registration_of_accepted h haccepted, Arrival.tally, refusal?,
            nameError?, haccepted]
      | some cause =>
          have hrefused := Arrival.registration_of_refused h haccepted
          cases cause with
          | malformed text =>
              simp [isNamed, h, hrefused, Arrival.tally, refusal?, nameError?, haccepted,
                NameError.code]
          | reserved short =>
              simp [isNamed, h, hrefused, Arrival.tally, refusal?, nameError?, haccepted,
                NameError.code]

/-- Among some arrivals, those at named types are those that ask for a fullname and those at types
with names that are refused. -/
theorem countp_is_named (arrivals : List Arrival) :
    arrivals.countP (fun arrival => arrival.type.isNamed) =
      (arrivals.filterMap Arrival.registration?).length +
        (arrivals.map fun arrival => arrival.tally .malformedName).sum +
          (arrivals.map fun arrival => arrival.tally .reservedName).sum := by
  induction arrivals with
  | nil => rfl
  | cons arrival rest ih =>
      have hhere := countp_is_named_singleton arrival
      have hasked : ((arrival :: rest).filterMap Arrival.registration?).length =
          arrival.registration?.toList.length +
            (rest.filterMap Arrival.registration?).length := by
        cases h : arrival.registration? <;> simp [h, Nat.add_comm]
      have hnamed : (arrival :: rest).countP (fun arrival => arrival.type.isNamed) =
          [arrival].countP (fun arrival => arrival.type.isNamed) +
            rest.countP fun arrival => arrival.type.isNamed := by
        rw [← List.countP_append, List.singleton_append]
      -- Each arrival counts on one side exactly as on the other.
      rw [hnamed, hhere, ih, hasked, List.map_cons, List.map_cons, List.sum_cons, List.sum_cons]
      omega

/-- Every named type below a root either defines a fullname or is reported for its name. -/
theorem Coherent.ncard_definitions_eq (hcoherent : root.Coherent) (trace : Bool) :
    root.definitions.ncard = (root.verify ⟨trace, false⟩).names.entries.length +
      (root.verify ⟨trace, false⟩).count .malformedName +
        (root.verify ⟨trace, false⟩).count .reservedName +
          (root.verify ⟨trace, false⟩).count .duplicateName := by
  have hnamed : root.definitions.ncard =
      (root.arrivals Definition.innerNamespace).countP fun arrival => arrival.type.isNamed := by
    rw [← hcoherent.ncard_definitions fun _ hnamed => hnamed]
    congr 1
    ext type
    exact ⟨fun h => ⟨h, h.2⟩, And.left⟩
  have hasked : (firsts Registration.fullname [] root.registrations).length +
      (repeats Registration.fullname [] root.registrations).length =
        root.registrations.length :=
    length_firsts_add_length_repeats [] root.registrations
  rw [length_repeats] at hasked
  rw [hnamed, countp_is_named, entries_verify, List.length_map,
    count_verify_of_ne trace root .malformedName (by decide),
    count_verify_of_ne trace root .reservedName (by decide),
    count_verify_duplicate_name, ← registrations]
  omega

/-- In a schema that is accepted, whatever is asked for is defined. -/
theorem entries_of_accepted {options : Options}
    (haccepted : (root.verify options).outcome = .ok ()) :
    (root.verify options).names.entries = root.registrations.map Registration.entry := by
  have hsound := (outcome_verify_eq_ok_iff options root).1 haccepted
  have hdistinct : repeats Registration.fullname [] root.registrations = [] :=
    repeats_eq_nil_iff.2 ⟨(failures_eq_nil_iff.1 hsound).2, fun _ _ => List.not_mem_nil⟩
  rw [verify_of_failures_eq_nil options root hsound, ← firsts_eq_self hdistinct]
  show (NameTable.empty.extend root.events).entries = _
  exact root.entries_events

/-- In a coherent schema that is accepted, the defined names are the fullnames recorded for the
named types below the root. -/
theorem Coherent.mem_entries_of_accepted (hcoherent : root.Coherent) {options : Options}
    (haccepted : (root.verify options).outcome = .ok ()) (fullname : String) (type : Schema) :
    (fullname, type) ∈ (root.verify options).names.entries ↔
      type ∈ root.definitions ∧ fullname = type.fullname := by
  have hnames :=
    names_sound_of_failures_eq_nil ((outcome_verify_eq_ok_iff options root).1 haccepted)
  rw [entries_of_accepted haccepted, List.mem_map]
  constructor
  · rintro ⟨registration, hasked, hentry⟩
    obtain ⟨rfl, rfl⟩ := Prod.mk.inj hentry
    exact hnames.registration hasked
  · rintro ⟨hdefinition, rfl⟩
    obtain ⟨registration, hasked, rfl, hfullname⟩ :=
      hcoherent.exists_registration hnames hdefinition
    exact ⟨registration, hasked, Prod.ext hfullname rfl⟩

/-- In a schema that is accepted, no named type defines two names. -/
theorem nodup_nodes_of_accepted {options : Options}
    (haccepted : (root.verify options).outcome = .ok ()) :
    ((root.verify options).names.entries.map fun entry => entry.2.node).Nodup := by
  rw [entries_of_accepted haccepted, List.map_map]
  show (root.registrations.map fun registration => registration.type.node).Nodup
  exact root.nodup_nodes_registrations

/-- A verification of a whole coherent schema loses no name and invents none. A fullname belongs to
the first type to ask for it, and every named type below the root either defines a fullname or is
reported for its name. In a schema that is accepted, in whichever way it is verified, the defined
names are the fullnames recorded for the named types below the root, each of which occurs once. -/
theorem Coherent.names_verify (hcoherent : root.Coherent) :
    (∀ trace fullname type, (root.verify ⟨trace, false⟩).names.find? fullname = some type ↔
      root.FirstToAsk type fullname) ∧
    (∀ trace, (root.verify ⟨trace, false⟩).names.fullnames.Nodup ∧
      root.definitions.ncard = (root.verify ⟨trace, false⟩).names.entries.length +
        (root.verify ⟨trace, false⟩).count .malformedName +
          (root.verify ⟨trace, false⟩).count .reservedName +
            (root.verify ⟨trace, false⟩).count .duplicateName) ∧
    ∀ options, (root.verify options).outcome = .ok () →
      (∀ fullname type, (fullname, type) ∈ (root.verify options).names.entries ↔
        type ∈ root.definitions ∧ fullname = type.fullname) ∧
      ((root.verify options).names.entries.map fun entry => entry.2.node).Nodup := by
  refine ⟨?_, ?_, ?_⟩
  · intro trace fullname type
    exact find_verify_eq_some_iff trace root type fullname
  · intro trace
    exact ⟨nodup_fullnames_verify trace root, hcoherent.ncard_definitions_eq trace⟩
  · intro options haccepted
    exact ⟨hcoherent.mem_entries_of_accepted haccepted, nodup_nodes_of_accepted haccepted⟩

/-- Of two types that claim the same fullname, the first one has it, and each of the three named
types is accounted for. A type that is used twice and accepted has the fullname recorded for it. -/
theorem names_verify_tangle :
    tangle.Coherent ∧ tangle.FirstToAsk point "Point" ∧ tangle.definitions.ncard = 3 ∧
      segment.Coherent ∧ ("geo.Point", point) ∈ (segment.verify {}).names.entries := by
  obtain ⟨hfirst, haccounted, -⟩ := coherent_tangle.names_verify
  obtain ⟨-, -, haccepted⟩ := coherent_segment.names_verify
  have hfound : (tangle.verify ⟨false, false⟩).names.find? "Point" = some point := by
    rw [verify_eq]
    rfl
  refine ⟨coherent_tangle, (hfirst false "Point" point).1 hfound, ?_, coherent_segment, ?_⟩
  · rw [(haccounted false).2, count_verify, count_verify, count_verify, verify_eq]
    rfl
  · have hdefinition : point ∈ segment.definitions :=
      ⟨.child _ _ .root List.mem_cons_self, rfl⟩
    exact ((haccepted {} rfl).1 "geo.Point" point).2 ⟨hdefinition, rfl⟩

end Schema

end AvroSchema
