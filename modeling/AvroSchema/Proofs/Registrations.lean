import AvroSchema.Proofs.ArrivalFailures

/-!
# Registrations

A named type whose names are acceptable asks for the fullname it resolves to. The first one to ask
gets it, and every later one clashes with the first. The main statements describe a whole
verification by its arrivals: `entries_events` says which names are defined,
`filter_map_entry_events` what is traced, and `failures_events` what is found wrong, namely what is
wrong at the arrivals and the clashes.
-/

namespace AvroSchema

/-- A definition that asks for a fullname. -/
structure Registration where
  type : Schema
  definition : Definition
  fullname : String

namespace Registration

/-- The entry of the name table that a registration asks for. -/
def entry (registration : Registration) : String × Schema :=
  (registration.fullname, registration.type)

/-- What is wrong with a registration for a fullname that is taken. -/
def clash (registration : Registration) : Failure :=
  .duplicateName registration.definition registration.fullname

end Registration

/-- What an arrival asks for: a named type with acceptable names asks for the fullname it resolves
to. -/
def Arrival.registration? (arrival : Arrival) : Option Registration :=
  match arrival.type.definition? with
  | some definition =>
      match definition.nameError? with
      | some _ => none
      | none => some ⟨arrival.type, definition, (definition.resolve arrival.enclosing).fullname⟩
  | none => none

/-- What a stop asks for. -/
def Stop.registration? (stop : Stop) : Option Registration :=
  stop.arrival?.bind Arrival.registration?

/-- What is asked for in a schema, in the order of the walk from its root. -/
def Schema.registrations (root : Schema) : List Registration :=
  (root.arrivals Definition.innerNamespace).filterMap Arrival.registration?

namespace Schema

variable {type : Schema} {definition : Definition}

/-- A type with a definition is named. -/
theorem is_named_of_definition (h : type.definition? = some definition) : type.isNamed := by
  rw [isNamed, h, Option.isSome_some]

/-- The names of a type are refused for what its definition is refused for. -/
theorem name_error_of_definition (h : type.definition? = some definition) :
    type.nameError? = definition.nameError? := by
  rw [nameError?, h, Option.bind_some]

/-- The fullname recorded for a type is the one that its definition records. -/
theorem fullname_of_definition (h : type.definition? = some definition) :
    type.fullname = definition.fullname := by
  rw [fullname, h, Option.map_some, Option.getD_some]

/-- A named type is written with the name of its definition. -/
theorem name_of_definition (h : type.definition? = some definition) :
    type.name = definition.name := by
  cases type with
  | record | enum | fixed =>
      cases h
      rfl
  | primitive | array | map | union => cases h

/-- A named type has the explicit namespace of its definition. -/
theorem ns_of_definition (h : type.definition? = some definition) : type.ns = definition.ns := by
  rw [ns, h, Option.map_some, Option.getD_some]

/-- A type resolves to the same name as its definition. -/
theorem resolve_of_definition (h : type.definition? = some definition) (enclosing : String) :
    type.resolve enclosing = definition.resolve enclosing := by
  cases type with
  | record | enum | fixed =>
      cases h
      rfl
  | primitive | array | map | union => cases h

/-- The key of a named branch is the fullname that its definition resolves to. -/
theorem branch_key_of_definition (h : type.definition? = some definition) (enclosing : String) :
    type.branchKey enclosing = (definition.resolve enclosing).fullname := by
  rw [branchKey, if_pos (is_named_of_definition h), resolve_of_definition h]

/-- The key of a branch only depends on the definition and the name of the type. -/
theorem branch_key_congr {first second : Schema}
    (hdefinition : first.definition? = second.definition?) (hname : first.name = second.name)
    (enclosing : String) :
    first.branchKey enclosing = second.branchKey enclosing := by
  have hnamed : first.isNamed = second.isNamed := congrArg Option.isSome hdefinition
  have hresolved : first.resolve enclosing = second.resolve enclosing := by
    simp only [resolve, ns, hdefinition, hname]
  rw [branchKey, branchKey, hnamed, hresolved, hname]

end Schema

/-- Without a definition, nothing is asked for. -/
theorem Arrival.registration_of_unnamed {arrival : Arrival}
    (h : arrival.type.definition? = none) : arrival.registration? = none := by
  simp [registration?, h]

/-- A definition with unacceptable names asks for nothing. -/
theorem Arrival.registration_of_refused {arrival : Arrival} {definition : Definition}
    {cause : NameError} (h : arrival.type.definition? = some definition)
    (hrefused : definition.nameError? = some cause) : arrival.registration? = none := by
  simp [registration?, h, hrefused]

/-- A definition with acceptable names asks for the fullname it resolves to. -/
theorem Arrival.registration_of_accepted {arrival : Arrival} {definition : Definition}
    (h : arrival.type.definition? = some definition) (haccepted : definition.nameError? = none) :
    arrival.registration? =
      some ⟨arrival.type, definition, (definition.resolve arrival.enclosing).fullname⟩ := by
  simp [registration?, h, haccepted]

/-- An arrival asks for something only if it is at a definition with acceptable names. -/
theorem Arrival.registration_eq_some_iff {arrival : Arrival} {registration : Registration} :
    arrival.registration? = some registration ↔
      ∃ definition, arrival.type.definition? = some definition ∧ definition.nameError? = none ∧
        registration =
          ⟨arrival.type, definition, (definition.resolve arrival.enclosing).fullname⟩ := by
  constructor
  · intro hasked
    cases h : arrival.type.definition? with
    | none => simp [registration_of_unnamed h] at hasked
    | some definition =>
        cases haccepted : definition.nameError? with
        | some cause => simp [registration_of_refused h haccepted] at hasked
        | none =>
            rw [registration_of_accepted h haccepted, Option.some.injEq] at hasked
            exact ⟨definition, rfl, haccepted, hasked.symm⟩
  · rintro ⟨definition, h, haccepted, rfl⟩
    exact registration_of_accepted h haccepted

/-- What an arrival asks for is asked for by the type arrived at. -/
theorem Arrival.type_of_registration {arrival : Arrival} {registration : Registration}
    (h : arrival.registration? = some registration) : registration.type = arrival.type := by
  obtain ⟨definition, -, -, rfl⟩ := registration_eq_some_iff.1 h
  rfl

/-- What asks for a fullname is entered as a named node, in the same order. -/
theorem Arrival.sublist_named_nodes (arrivals : List Arrival) :
    ((arrivals.filterMap Arrival.registration?).map fun registration =>
      registration.type.node).Sublist (namedNodes arrivals) := by
  induction arrivals with
  | nil => exact .slnil
  | cons arrival rest ih =>
      cases hasked : arrival.registration? with
      | none =>
          rw [List.filterMap_cons_none hasked]
          cases hnamed : arrival.type.isNamed with
          | false => rwa [named_nodes_cons_of_not_named hnamed]
          | true =>
              rw [named_nodes_cons_of_named hnamed]
              exact ih.cons _
      | some registration =>
          obtain ⟨definition, hdefinition, -, rfl⟩ := registration_eq_some_iff.1 hasked
          rw [List.filterMap_cons_some hasked,
            named_nodes_cons_of_named (Schema.is_named_of_definition hdefinition)]
          exact ih.cons_cons _

namespace Schema

/-- No named node asks for a fullname twice. -/
theorem nodup_nodes_registrations (root : Schema) :
    (root.registrations.map fun registration => registration.type.node).Nodup :=
  (Arrival.sublist_named_nodes _).nodup nodup_named_nodes_arrivals

variable {type : Schema} {definition : Definition}

/-- Going into a named type is looking at its definition. -/
theorem arrival_events_of_definition (h : type.definition? = some definition) (names : NameTable)
    (enclosing : String) :
    type.arrivalEvents names enclosing = type.definitionEvents names definition enclosing := by
  cases type with
  | record | enum | fixed =>
      cases h
      rfl
  | primitive | array | map | union => cases h

/-- Going into a type without a name has nothing to do with the names defined. -/
theorem arrival_events_of_unnamed (h : type.definition? = none) (names : NameTable)
    (enclosing : String) :
    type.arrivalEvents names enclosing = type.arrivalEvents .empty enclosing ∧
      (type.arrivalEvents names enclosing).filterMap Event.definition? = [] := by
  cases type with
  | record | enum | fixed => cases h
  | primitive node token =>
      refine ⟨rfl, ?_⟩
      rw [arrivalEvents]
      split_ifs <;> rfl
  | array | map | union => exact ⟨rfl, rfl⟩

end Schema

namespace Stop

/-- At a stop, the names that are asked for and new are defined. -/
theorem definitions_events (names : NameTable) (stop : Stop) :
    (stop.events names).filterMap Event.definition? =
      (firsts Registration.fullname names.fullnames stop.registration?.toList).map
        Registration.entry := by
  cases stop with
  | arrival type enclosing =>
      rw [events, registration?, arrival?, Option.bind_some]
      cases h : type.definition? with
      | none =>
          rw [Arrival.registration_of_unnamed h]
          exact (Schema.arrival_events_of_unnamed h names enclosing).2
      | some definition =>
          rw [Schema.arrival_events_of_definition h, Schema.definitionEvents]
          cases haccepted : definition.nameError? with
          | some cause =>
              rw [Arrival.registration_of_refused h haccepted]
              rfl
          | none =>
              rw [Arrival.registration_of_accepted h haccepted]
              simp only [NameTable.defines_iff, Option.toList_some, firsts]
              split_ifs <;> rfl
  | returned type enclosing => rfl
  | field definition earlier name =>
      simp only [events]
      split_ifs <;> rfl
  | symbol definition earlier name =>
      simp only [events]
      split_ifs <;> rfl
  | nested => rfl
  | branch earlier key =>
      simp only [events]
      split_ifs <;> rfl
  | gap missing => rfl

/-- At a stop, what is wrong whatever names are defined is found, and the names that are asked for
and not new. -/
theorem failures_events (names : NameTable) (stop : Stop) :
    (stop.events names).filterMap Event.failure? =
      stop.failures ++
        (repeats Registration.fullname names.fullnames stop.registration?.toList).map
          Registration.clash := by
  cases stop with
  | arrival type enclosing =>
      rw [failures, events, events, registration?, arrival?, Option.bind_some]
      cases h : type.definition? with
      | none =>
          rw [Arrival.registration_of_unnamed h,
            (Schema.arrival_events_of_unnamed h names enclosing).1]
          exact (List.append_nil _).symm
      | some definition =>
          rw [Schema.arrival_events_of_definition h, Schema.arrival_events_of_definition h,
            failures_definition, Schema.definitionEvents, Definition.failures]
          cases haccepted : definition.nameError? with
          | some cause =>
              rw [Arrival.registration_of_refused h haccepted]
              rfl
          | none =>
              rw [Arrival.registration_of_accepted h haccepted]
              simp only [NameTable.defines_iff, Option.toList_some, repeats]
              split_ifs <;> rfl
  | returned type enclosing => rfl
  -- Only arrivals ask for a name, so at all other stops nothing is added.
  | field definition earlier name => exact (List.append_nil _).symm
  | symbol definition earlier name => exact (List.append_nil _).symm
  | nested => rfl
  | branch earlier key => exact (List.append_nil _).symm
  | gap missing => rfl

end Stop

/-- After a stop, the names defined before and those asked for at the stop are defined. -/
theorem NameTable.mem_fullnames_extend_events (names : NameTable) (stop : Stop) (k : String) :
    k ∈ (names.extend (stop.events names)).fullnames ↔
      k ∈ stop.registration?.toList.map Registration.fullname ++ names.fullnames := by
  have hextended : (names.extend (stop.events names)).fullnames =
      names.fullnames ++ (firsts Registration.fullname names.fullnames
        stop.registration?.toList).map Registration.fullname := by
    rw [fullnames, extend, Stop.definitions_events, List.map_append, List.map_map]
    rfl
  rw [hextended, List.mem_append, List.mem_append, mem_keys_firsts]
  by_cases hknown : k ∈ names.fullnames
  · simp [hknown]
  · simp [hknown]

/-- What a walk asks for begins with what its first stop asks for. -/
theorem Stop.filter_map_registration_cons (stop : Stop) (rest : List Stop) :
    (stop :: rest).filterMap Stop.registration? =
      stop.registration?.toList ++ rest.filterMap Stop.registration? := by
  cases h : stop.registration? with
  | none => simp [h]
  | some registration => simp [h]

/-- The names defined along a walk are the first ones to be asked for. -/
theorem NameTable.entries_extend_transcript (names : NameTable) (stops : List Stop) :
    (names.extend (transcript names stops)).entries =
      names.entries ++ (firsts Registration.fullname names.fullnames
        (stops.filterMap Stop.registration?)).map Registration.entry := by
  induction stops generalizing names with
  | nil => simp [transcript, extend, firsts]
  | cons stop rest ih =>
      -- The rest of the walk starts from a table with the names in another order.
      have hlater := firsts_congr Registration.fullname
        (names.mem_fullnames_extend_events stop) (rest.filterMap Stop.registration?)
      rw [transcript, extend_append, ih, hlater, Stop.filter_map_registration_cons, firsts_append,
        List.map_append, ← Stop.definitions_events, ← List.append_assoc]
      rfl

/-- What is found wrong along a walk is what is wrong at its stops whatever names are defined, and
what asks for a name that is taken. -/
theorem failures_transcript (names : NameTable) (stops : List Stop) :
    (((transcript names stops).filterMap Event.failure? : List Failure) : Multiset Failure) =
      (stops.flatMap Stop.failures : List Failure) +
        ((repeats Registration.fullname names.fullnames
          (stops.filterMap Stop.registration?)).map Registration.clash : List Failure) := by
  induction stops generalizing names with
  | nil => rfl
  | cons stop rest ih =>
      have hlater := repeats_congr Registration.fullname
        (names.mem_fullnames_extend_events stop) (rest.filterMap Stop.registration?)
      rw [transcript, List.filterMap_append, ← Multiset.coe_add, ih, hlater,
        Stop.filter_map_registration_cons, repeats_append, List.map_append, ← Multiset.coe_add,
        Stop.failures_events, ← Multiset.coe_add, List.flatMap_cons, ← Multiset.coe_add]
      abel

/-- The line of trace about an arrival, which there is if the arrival asks for a fullname. -/
def Arrival.entry? (arrival : Arrival) : Option TraceEntry :=
  arrival.registration?.map fun registration =>
    .ofType registration.type arrival.enclosing registration.fullname

/-- The line of trace about a stop. -/
def Stop.entry? (stop : Stop) : Option TraceEntry :=
  stop.arrival?.bind Arrival.entry?

/-- At a stop, an arrival that asks for a fullname is traced, whatever names are defined. -/
theorem Stop.filter_map_entry_events (names : NameTable) (stop : Stop) :
    (stop.events names).filterMap Event.entry? = stop.entry?.toList := by
  cases stop with
  | arrival type enclosing =>
      rw [events, entry?, arrival?, Option.bind_some, Arrival.entry?]
      cases h : type.definition? with
      | none =>
          rw [Arrival.registration_of_unnamed h]
          cases type with
          | primitive node token =>
              rw [Schema.arrivalEvents]
              split_ifs <;> rfl
          | array | map | union => rfl
          | record | enum | fixed => cases h
      | some definition =>
          rw [Schema.arrival_events_of_definition h, Schema.definitionEvents]
          cases haccepted : definition.nameError? with
          | some cause =>
              rw [Arrival.registration_of_refused h haccepted]
              rfl
          | none =>
              rw [Arrival.registration_of_accepted h haccepted]
              simp only
              split_ifs <;> rfl
  | returned type enclosing => rfl
  | field definition earlier name =>
      simp only [events]
      split_ifs <;> rfl
  | symbol definition earlier name =>
      simp only [events]
      split_ifs <;> rfl
  | nested => rfl
  | branch earlier key =>
      simp only [events]
      split_ifs <;> rfl
  | gap missing => rfl

/-- The trace of a walk is about its stops, whatever names are defined at its start. -/
theorem filter_map_entry_transcript (names : NameTable) (stops : List Stop) :
    (transcript names stops).filterMap Event.entry? = stops.filterMap Stop.entry? := by
  induction stops generalizing names with
  | nil => rfl
  | cons stop rest ih =>
      rw [transcript, List.filterMap_append, ih, Stop.filter_map_entry_events]
      cases htraced : stop.entry? with
      | none => rw [List.filterMap_cons_none htraced, Option.toList_none, List.nil_append]
      | some entry =>
          rw [List.filterMap_cons_some htraced, Option.toList_some, List.singleton_append]

namespace Schema

/-- What the stops of an itinerary ask for is what is asked for in the schema. -/
theorem filter_map_registration_itinerary (root : Schema) :
    root.itinerary.filterMap Stop.registration? = root.registrations := by
  rw [registrations, ← filter_map_arrival_itinerary, List.filterMap_filterMap]
  rfl

/-- The names that are defined in a schema are the first ones to be asked for. -/
theorem entries_events (root : Schema) :
    (NameTable.empty.extend root.events).entries =
      (firsts Registration.fullname [] root.registrations).map Registration.entry := by
  rw [events, NameTable.entries_extend_transcript, filter_map_registration_itinerary]
  rfl

/-- The trace of a schema is about its arrivals. -/
theorem filter_map_entry_events (root : Schema) :
    root.events.filterMap Event.entry? =
      (root.arrivals Definition.innerNamespace).filterMap Arrival.entry? := by
  rw [events, filter_map_entry_transcript, ← filter_map_arrival_itinerary, List.filterMap_filterMap]
  rfl

/-- What is found wrong with a schema is what is wrong at its arrivals and the clashes. -/
theorem failures_events (root : Schema) :
    ((root.events.filterMap Event.failure? : List Failure) : Multiset Failure) =
      ((root.arrivals Definition.innerNamespace).map Arrival.failures).sum +
        ((repeats Registration.fullname [] root.registrations).map Registration.clash :
          List Failure) := by
  rw [events, failures_transcript, failures_itinerary, filter_map_registration_itinerary]
  rfl

end Schema

end AvroSchema
