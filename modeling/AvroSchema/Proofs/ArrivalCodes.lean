import AvroSchema.Proofs.Registrations

/-!
# The codes of what is wrong at an arrival

What is wrong at an arrival is reported under codes. `Arrival.codes` adds the codes up rule by rule,
without a look at the kind of type that is arrived at, and `Arrival.tally` counts them one by one.
The main statements say that both are right (`map_code_failures`, `count_codes`).
-/

namespace AvroSchema

namespace Schema

/-- Whether a type is primitive by kind but not by its token. -/
def hasUnknownToken : Schema → Bool
  | primitive _ token => !Name.isPrimitive token
  | record .. | enum .. | fixed .. | array .. | map .. | union .. => false

/-- The code under which the names of a type are refused. -/
def refusal? (type : Schema) : Option Code :=
  type.nameError?.map NameError.code

/-- A type without a name has no fields. -/
theorem field_names_of_unnamed (type : Schema) (h : type.isNamed = false) :
    type.fieldNames = [] := by
  cases type with
  | record => cases h
  | _ => rfl

/-- A type without a name has no symbols. -/
theorem symbols_of_unnamed (type : Schema) (h : type.isNamed = false) :
    type.symbols = [] := by
  cases type with
  | enum => cases h
  | _ => rfl

/-- The names of a type are refused as malformed because of a text that is no dotted name. -/
theorem refusal_eq_malformed_name_iff {type : Schema} :
    type.refusal? = some .malformedName ↔ ∃ text, type.nameError? = some (.malformed text) := by
  rw [refusal?]
  cases type.nameError? with
  | none => simp
  | some cause => cases cause <;> simp [NameError.code]

/-- The names of a type are refused as reserved because of a reserved short name. -/
theorem refusal_eq_reserved_name_iff {type : Schema} :
    type.refusal? = some .reservedName ↔ ∃ short, type.nameError? = some (.reserved short) := by
  rw [refusal?]
  cases type.nameError? with
  | none => simp
  | some cause => cases cause <;> simp [NameError.code]

/-- Only named types can have their names refused. -/
theorem is_named_of_refusal {type : Schema} {code : Code} (h : type.refusal? = some code) :
    type.isNamed := by
  cases hdefinition : type.definition? with
  | none => simp [refusal?, nameError?, hdefinition] at h
  | some definition => simp [isNamed, hdefinition]

end Schema

/-- Whether the names of a named type are acceptable, but the fullname recorded for it is not the
one that it resolves to. -/
def Arrival.isMisnamed (arrival : Arrival) : Bool :=
  arrival.type.isNamed && arrival.type.nameError?.isNone &&
    arrival.type.fullname != (arrival.type.resolve arrival.enclosing).fullname

/-- A misnamed type is a named type with acceptable names and the wrong fullname. -/
theorem Arrival.is_misnamed_iff {arrival : Arrival} :
    arrival.isMisnamed ↔ arrival.type.isNamed ∧ arrival.type.nameError? = none ∧
      arrival.type.fullname ≠ (arrival.type.resolve arrival.enclosing).fullname := by
  simp [isMisnamed, and_assoc]

/-- The codes of what is wrong at an arrival. -/
def Arrival.codes (arrival : Arrival) : Multiset Code :=
  (arrival.type.refusal?.toList : Multiset Code) +
    .replicate ([arrival].countP isMisnamed) .fullnameMismatch +
    .replicate (arrival.type.fieldNames.countP fun name => !Name.isSimple name) .malformedField +
    .replicate (surplus (arrival.type.fieldNames.filter Name.isSimple)) .duplicateField +
    .replicate (arrival.type.symbols.countP fun symbol => !Name.isSimple symbol)
      .malformedSymbol +
    .replicate (surplus (arrival.type.symbols.filter Name.isSimple)) .duplicateSymbol +
    .replicate arrival.type.gaps .missingType +
    .replicate ([arrival.type].countP Schema.hasUnknownToken) .unknownPrimitive +
    .replicate arrival.type.nestedUnions .nestedUnion +
    .replicate (surplus (arrival.type.branchKeys arrival.enclosing)) .duplicateBranch

/-- How often a code is counted at an arrival. -/
def Arrival.tally (arrival : Arrival) : Code → Nat
  | .unclassified | .duplicateName => 0
  | .malformedName => [arrival.type].countP fun type => type.refusal? = some .malformedName
  | .reservedName => [arrival.type].countP fun type => type.refusal? = some .reservedName
  | .fullnameMismatch => [arrival].countP isMisnamed
  | .malformedField => arrival.type.fieldNames.countP fun name => !Name.isSimple name
  | .duplicateField => surplus (arrival.type.fieldNames.filter Name.isSimple)
  | .malformedSymbol => arrival.type.symbols.countP fun symbol => !Name.isSimple symbol
  | .duplicateSymbol => surplus (arrival.type.symbols.filter Name.isSimple)
  | .nestedUnion => arrival.type.nestedUnions
  | .duplicateBranch => surplus (arrival.type.branchKeys arrival.enclosing)
  | .missingType => arrival.type.gaps
  | .unknownPrimitive => [arrival.type].countP Schema.hasUnknownToken

/-- Failures that are all reported under one code contribute that code as often as they occur. -/
theorem map_code_map_eq_replicate {α : Type} (failure : α → Failure) {code : Code}
    (hsame : ∀ item, (failure item).code = code) (items : List α) :
    ((items.map failure : List Failure) : Multiset Failure).map Failure.code =
      .replicate items.length code := by
  have hconstant : Failure.code ∘ failure = fun _ => code := funext hsame
  rw [Multiset.map_coe, List.map_map, hconstant, List.map_const', Multiset.coe_replicate]

/-- What is wrong with names is reported once for each that is not simple, and once for each that
is simple but not new. -/
theorem map_code_name_failures (malformed duplicate : String → Failure) {first second : Code}
    (hofMalformed : ∀ name, (malformed name).code = first)
    (hofDuplicate : ∀ name, (duplicate name).code = second) (names : List String) :
    (nameFailures malformed duplicate [] names).map Failure.code =
      .replicate (names.countP fun name => !Name.isSimple name) first +
        .replicate (surplus (names.filter Name.isSimple)) second := by
  rw [nameFailures, Multiset.map_add, map_code_map_eq_replicate malformed hofMalformed,
    map_code_map_eq_replicate duplicate hofDuplicate, List.filter_nil, length_repeats, List.map_id,
    List.countP_eq_length_filter]

/-- What is wrong with a definition is that its names are refused, or that the fullname recorded for
it is another one. -/
theorem Arrival.map_code_definition_failures {arrival : Arrival} {definition : Definition}
    (h : arrival.type.definition? = some definition) :
    (definition.failures arrival.enclosing : Multiset Failure).map Failure.code =
      (arrival.type.refusal?.toList : Multiset Code) +
        .replicate ([arrival].countP isMisnamed) .fullnameMismatch := by
  have hnamed := Schema.is_named_of_definition h
  have hsameError := Schema.name_error_of_definition h
  have hsameFullname := Schema.fullname_of_definition h
  have hsameName := Schema.resolve_of_definition h arrival.enclosing
  unfold Definition.failures Schema.refusal?
  cases haccepted : definition.nameError? with
  | some cause => simp [isMisnamed, hsameError, haccepted, Failure.code]
  | none =>
      by_cases hsame : definition.fullname = (definition.resolve arrival.enclosing).fullname
      · simp [isMisnamed, hsameError, haccepted, hsameFullname, hsameName, hsame]
      · simp [isMisnamed, hnamed, hsameError, haccepted, hsameFullname, hsameName, hsame,
          Failure.code]

/-- A type without a name has no names that could be wrong. -/
theorem Arrival.codes_of_unnamed {arrival : Arrival} (h : arrival.type.isNamed = false) :
    arrival.codes =
      .replicate arrival.type.gaps .missingType +
        .replicate ([arrival.type].countP Schema.hasUnknownToken) .unknownPrimitive +
        .replicate arrival.type.nestedUnions .nestedUnion +
        .replicate (surplus (arrival.type.branchKeys arrival.enclosing)) .duplicateBranch := by
  obtain ⟨type, enclosing⟩ := arrival
  cases type with
  | record | enum | fixed => cases h
  | primitive | array | map | union =>
      simp [codes, Schema.refusal?, Schema.nameError?, Schema.definition?, isMisnamed,
        Schema.isNamed, Schema.fieldNames, Schema.symbols, surplus]

/-- A named type has neither a token nor branches that could be wrong. -/
theorem Arrival.codes_of_definition {arrival : Arrival} {definition : Definition}
    (h : arrival.type.definition? = some definition) :
    arrival.codes =
      (definition.failures arrival.enclosing : Multiset Failure).map Failure.code +
        .replicate (arrival.type.fieldNames.countP fun name => !Name.isSimple name)
          .malformedField +
        .replicate (surplus (arrival.type.fieldNames.filter Name.isSimple)) .duplicateField +
        .replicate (arrival.type.symbols.countP fun symbol => !Name.isSimple symbol)
          .malformedSymbol +
        .replicate (surplus (arrival.type.symbols.filter Name.isSimple)) .duplicateSymbol +
        .replicate arrival.type.gaps .missingType := by
  rw [map_code_definition_failures h]
  obtain ⟨type, enclosing⟩ := arrival
  cases type with
  | primitive | array | map | union => cases h
  | record | enum | fixed =>
      simp [codes, Schema.hasUnknownToken, Schema.nestedUnions, Schema.branchKeys, surplus]

/-- The codes of what is wrong at an arrival are counted one by one. -/
theorem Arrival.map_code_failures (arrival : Arrival) :
    arrival.failures.map Failure.code = arrival.codes := by
  obtain ⟨type, enclosing⟩ := arrival
  cases type with
  | primitive node token =>
      rw [codes_of_unnamed rfl]
      by_cases hknown : Name.isPrimitive token = true
      · simp [failures, Schema.gaps, Schema.hasUnknownToken, Schema.nestedUnions,
          Schema.branchKeys, surplus, hknown]
      · simp [failures, Schema.gaps, Schema.hasUnknownToken, Schema.nestedUnions,
          Schema.branchKeys, surplus, hknown, Failure.code]
  | record node definition fields =>
      rw [codes_of_definition rfl, failures, Multiset.map_add, Multiset.map_add,
        Multiset.map_replicate,
        map_code_name_failures (.malformedField definition) (.duplicateField definition)
          (fun _ => rfl) fun _ => rfl]
      simp [Schema.symbols, surplus, Failure.code, add_assoc]
  | enum node definition symbols =>
      rw [codes_of_definition rfl, failures, Multiset.map_add,
        map_code_name_failures (.malformedSymbol definition) (.duplicateSymbol definition)
          (fun _ => rfl) fun _ => rfl]
      simp [Schema.fieldNames, Schema.gaps, surplus, add_assoc]
  | fixed node definition size =>
      rw [codes_of_definition rfl, failures]
      simp [Schema.fieldNames, Schema.symbols, Schema.gaps, surplus]
  | array | map =>
      rw [codes_of_unnamed rfl, failures, Multiset.map_replicate]
      simp [Schema.hasUnknownToken, Schema.nestedUnions, Schema.branchKeys, surplus, Failure.code]
  | union node branches =>
      have hnoToken : [Schema.union node branches].countP Schema.hasUnknownToken = 0 := rfl
      rw [codes_of_unnamed rfl, failures, Multiset.map_add, Multiset.map_add,
        Multiset.map_replicate, Multiset.map_replicate,
        map_code_map_eq_replicate .duplicateBranch (fun _ => rfl), length_repeats, List.map_id,
        hnoToken, Multiset.replicate_zero]
      simp only [Failure.code]
      abel

/-- A code that is not about names as such is none under which the names of a type are refused. -/
theorem Schema.count_refusal {type : Schema} {code : Code} (hnotMalformed : code ≠ .malformedName)
    (hnotReserved : code ≠ .reservedName) :
    type.refusal?.toList.count code = 0 := by
  rw [List.count_eq_zero, refusal?]
  cases type.nameError? with
  | none => simp
  | some cause =>
      cases cause with
      | malformed text => simpa [NameError.code] using hnotMalformed
      | reserved short => simpa [NameError.code] using hnotReserved

/-- A code is counted at most once among the codes under which the names of a type are refused. -/
theorem Schema.count_refusal_eq_countp (type : Schema) (code : Code) :
    type.refusal?.toList.count code = [type].countP fun type => type.refusal? = some code := by
  cases h : type.refusal? with
  | none => simp [h]
  | some other => simp [h, List.count_singleton]

/-- Every code is counted at an arrival as often as it is among the codes there. -/
theorem Arrival.count_codes (arrival : Arrival) (code : Code) :
    arrival.codes.count code = arrival.tally code := by
  cases code with
  | malformedName | reservedName =>
      simp [codes, tally, Schema.count_refusal_eq_countp, Multiset.count_replicate]
  | _ => simp [codes, tally, Schema.count_refusal, Multiset.count_replicate]

end AvroSchema
