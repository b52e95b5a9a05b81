import AvroSchema.Proofs.ArrivalCodes
import AvroSchema.Proofs.Codes
import AvroSchema.Proofs.DefinitionCounts

/-!
# How often each rule is broken

A verification of a whole schema hides no failure behind another and repeats none:
`Schema.FailureCounts` says how many diagnostics there are to be for each code. What is wrong with a
named type counts once, and what is wrong with any other type at every arrival. The main statement
says that a report on a coherent schema has exactly as many (`Coherent.failure_counts`).
-/

namespace AvroSchema

/-- Counting along a list is counting item by item. -/
theorem sum_map_countp_singleton {α : Type} (property : α → Bool) (items : List α) :
    (items.map fun item => [item].countP property).sum = items.countP property := by
  induction items with
  | nil => rfl
  | cons item rest ih =>
      rw [List.map_cons, List.sum_cons, ih, ← List.countP_append, List.singleton_append]

/-- A code is counted arrival by arrival. -/
theorem count_map_code_sum_failures (code : Code) (arrivals : List Arrival) :
    ((arrivals.map Arrival.failures).sum.map Failure.code).count code =
      (arrivals.map fun arrival => arrival.tally code).sum := by
  induction arrivals with
  | nil => rfl
  | cons arrival rest ih =>
      rw [List.map_cons, List.sum_cons, Multiset.map_add, Multiset.count_add, ih,
        arrival.map_code_failures, arrival.count_codes]
      rfl

namespace Schema

/-- How many diagnostics a report on the whole of a schema has for each code, whatever else is
wrong. What concerns a named type is counted for each named type below the root, and what concerns
any other type for each arrival at it. -/
structure FailureCounts (root : Schema) (report : Report) : Prop where
  /-- One for each definition with a text that should be a dotted name and is none. -/
  malformedName : report.count .malformedName =
    {type ∈ root.definitions | ∃ text, type.nameError? = some (.malformed text)}.ncard
  /-- One for each definition with a reserved name. -/
  reservedName : report.count .reservedName =
    {type ∈ root.definitions | ∃ short, type.nameError? = some (.reserved short)}.ncard
  /-- One for each definition with acceptable names that does not record the fullname that it
  resolves to where it is entered. -/
  fullnameMismatch : report.count .fullnameMismatch =
    {type ∈ root.definitions | ∃ enclosing,
      ⟨type, enclosing⟩ ∈ root.arrivals Definition.innerNamespace ∧ type.nameError? = none ∧
        type.fullname ≠ (type.resolve enclosing).fullname}.ncard
  /-- One for each definition that asks for a fullname which an earlier one has asked for. -/
  duplicateName : report.count .duplicateName =
    surplus (root.registrations.map Registration.fullname)
  /-- One for each field without a simple name. -/
  malformedField : report.count .malformedField =
    ∑ᶠ type ∈ root.definitions, type.fieldNames.countP fun name => !Name.isSimple name
  /-- One for each field with the simple name of an earlier one. -/
  duplicateField : report.count .duplicateField =
    ∑ᶠ type ∈ root.definitions, surplus (type.fieldNames.filter Name.isSimple)
  /-- One for each symbol that is no simple name. -/
  malformedSymbol : report.count .malformedSymbol =
    ∑ᶠ type ∈ root.definitions, type.symbols.countP fun symbol => !Name.isSimple symbol
  /-- One for each symbol that is an earlier simple name again. -/
  duplicateSymbol : report.count .duplicateSymbol =
    ∑ᶠ type ∈ root.definitions, surplus (type.symbols.filter Name.isSimple)
  /-- One for each field without a type, and one for each type that is missing at an arrival at an
  array, a map or a union. -/
  missingType : report.count .missingType =
    (∑ᶠ type ∈ root.definitions, type.gaps) +
      (((root.arrivals Definition.innerNamespace).filter fun arrival =>
        !arrival.type.isNamed).map fun arrival => arrival.type.gaps).sum
  /-- One for each arrival at a primitive type without a primitive token. -/
  unknownPrimitive : report.count .unknownPrimitive =
    (root.arrivals Definition.innerNamespace).countP fun arrival => arrival.type.hasUnknownToken
  /-- One for each branch that is a union, at each arrival at a union. -/
  nestedUnion : report.count .nestedUnion =
    ((root.arrivals Definition.innerNamespace).map fun arrival => arrival.type.nestedUnions).sum
  /-- One for each branch that is no union and has the key of an earlier one, at each arrival at a
  union. -/
  duplicateBranch : report.count .duplicateBranch =
    ((root.arrivals Definition.innerNamespace).map fun arrival =>
      surplus (arrival.type.branchKeys arrival.enclosing)).sum

/-- A whole verification reports a code as often as it is counted at the arrivals, and the code for
duplicate names once for each clash besides. -/
theorem count_verify_eq_sum (trace : Bool) (root : Schema) (code : Code) :
    (root.verify ⟨trace, false⟩).count code =
      ((root.arrivals Definition.innerNamespace).map fun arrival =>
        arrival.tally code).sum +
      if code = .duplicateName then surplus (root.registrations.map Registration.fullname)
      else 0 := by
  have hclashes := map_code_map_eq_replicate Registration.clash (fun _ => rfl)
    (repeats Registration.fullname [] root.registrations)
  rw [count_verify, ← Multiset.coe_count, ← Multiset.map_coe, failures, failures_events,
    Multiset.map_add, Multiset.count_add, count_map_code_sum_failures, hclashes,
    Multiset.count_replicate, length_repeats]
  simp only [eq_comm]

/-- Of all codes but the one for duplicate names, a whole verification reports what is counted at
the arrivals. -/
theorem count_verify_of_ne (trace : Bool) (root : Schema) (code : Code)
    (h : code ≠ .duplicateName) :
    (root.verify ⟨trace, false⟩).count code =
      ((root.arrivals Definition.innerNamespace).map fun arrival => arrival.tally code).sum := by
  rw [count_verify_eq_sum, if_neg h, Nat.add_zero]

/-- A whole verification reports a duplicate name for every clash. -/
theorem count_verify_duplicate_name (trace : Bool) (root : Schema) :
    (root.verify ⟨trace, false⟩).count .duplicateName =
      surplus (root.registrations.map Registration.fullname) := by
  have hnone : ((root.arrivals Definition.innerNamespace).map fun arrival =>
      arrival.tally .duplicateName).sum = 0 := by
    simp [Arrival.tally]
  rw [count_verify_eq_sum, hnone, if_pos rfl, Nat.zero_add]

/-- The named types whose names are refused under a code are counted along the walk. -/
theorem Coherent.ncard_refused {root : Schema} (hcoherent : root.Coherent) (code : Code) :
    {type ∈ root.definitions | type.refusal? = some code}.ncard =
      ((root.arrivals Definition.innerNamespace).map fun arrival =>
        [arrival.type].countP fun type => type.refusal? = some code).sum := by
  have hofNamed : ∀ type : Schema, decide (type.refusal? = some code) → type.isNamed :=
    fun type hrefused => is_named_of_refusal (of_decide_eq_true hrefused)
  have hcounted := @hcoherent.ncard_definitions Definition.innerNamespace _ _ hofNamed
  simp only [decide_eq_true_eq] at hcounted
  rw [hcounted]
  exact (sum_map_countp_singleton
    (fun arrival : Arrival => decide (arrival.type.refusal? = some code)) _).symm

/-- The named types that record another fullname than they resolve to are counted along the walk. -/
theorem ncard_misnamed (root : Schema) :
    {type ∈ root.definitions | ∃ enclosing,
      ⟨type, enclosing⟩ ∈ root.arrivals Definition.innerNamespace ∧ type.nameError? = none ∧
        type.fullname ≠ (type.resolve enclosing).fullname}.ncard =
      (root.arrivals Definition.innerNamespace).countP Arrival.isMisnamed := by
  rw [← ncard_definitions_entered fun arrival hmisnamed => (arrival.is_misnamed_iff.1 hmisnamed).1]
  congr 1
  ext type
  constructor
  · rintro ⟨hdefinition, enclosing, harrival, haccepted, hdiffers⟩
    exact ⟨hdefinition, enclosing, harrival,
      Arrival.is_misnamed_iff.2 ⟨hdefinition.2, haccepted, hdiffers⟩⟩
  · rintro ⟨hdefinition, enclosing, harrival, hmisnamed⟩
    exact ⟨hdefinition, enclosing, harrival, (Arrival.is_misnamed_iff.1 hmisnamed).2⟩

/-- Whatever is counted in names that only named types have is counted once for each named type. -/
theorem Coherent.sum_names {root : Schema} (hcoherent : root.Coherent)
    {names : Schema → List String} (hunnamed : ∀ type, type.isNamed = false → names type = [])
    (number : List String → Nat) (hempty : number [] = 0) :
    ((root.arrivals Definition.innerNamespace).map fun arrival =>
      number (names arrival.type)).sum = ∑ᶠ type ∈ root.definitions, number (names type) := by
  refine @hcoherent.sum_arrivals_eq_finsum _ _ (fun type => number (names type)) ?_
  intro type h
  rw [hunnamed type h, hempty]

/-- The missing types along the walk are those of the named types and those that are missing at an
arrival at any other type. -/
theorem Coherent.sum_gaps_arrivals {root : Schema} (hcoherent : root.Coherent) :
    ((root.arrivals Definition.innerNamespace).map fun arrival => arrival.type.gaps).sum =
      (∑ᶠ type ∈ root.definitions, type.gaps) +
        (((root.arrivals Definition.innerNamespace).filter fun arrival =>
          !arrival.type.isNamed).map fun arrival => arrival.type.gaps).sum := by
  have hparted := List.filter_append_perm (fun arrival : Arrival => arrival.type.isNamed)
    (root.arrivals Definition.innerNamespace)
  have hsummed := (hparted.map fun arrival => arrival.type.gaps).sum_eq
  rw [List.map_append, List.sum_append, hcoherent.sum_named_arrivals_eq_finsum] at hsummed
  exact hsummed.symm

/-- A whole verification of a coherent schema hides no failure and repeats none. -/
theorem Coherent.failure_counts {root : Schema} (hcoherent : root.Coherent) (trace : Bool) :
    root.FailureCounts (root.verify ⟨trace, false⟩) where
  -- In each part, the left side becomes a sum along the walk. What belongs to named types is then
  -- summed over the named types below the root, and all else stays as it is.
  malformedName := by
    simp only [← refusal_eq_malformed_name_iff]
    rw [count_verify_of_ne trace root .malformedName (by decide)]
    exact (hcoherent.ncard_refused .malformedName).symm
  reservedName := by
    simp only [← refusal_eq_reserved_name_iff]
    rw [count_verify_of_ne trace root .reservedName (by decide)]
    exact (hcoherent.ncard_refused .reservedName).symm
  fullnameMismatch := by
    rw [count_verify_of_ne trace root .fullnameMismatch (by decide), ncard_misnamed]
    exact sum_map_countp_singleton Arrival.isMisnamed _
  duplicateName := count_verify_duplicate_name trace root
  malformedField := by
    rw [count_verify_of_ne trace root .malformedField (by decide)]
    exact hcoherent.sum_names field_names_of_unnamed
      (fun names => names.countP fun name => !Name.isSimple name) rfl
  duplicateField := by
    rw [count_verify_of_ne trace root .duplicateField (by decide)]
    exact hcoherent.sum_names field_names_of_unnamed
      (fun names => surplus (names.filter Name.isSimple)) rfl
  malformedSymbol := by
    rw [count_verify_of_ne trace root .malformedSymbol (by decide)]
    exact hcoherent.sum_names symbols_of_unnamed
      (fun symbols => symbols.countP fun symbol => !Name.isSimple symbol) rfl
  duplicateSymbol := by
    rw [count_verify_of_ne trace root .duplicateSymbol (by decide)]
    exact hcoherent.sum_names symbols_of_unnamed
      (fun symbols => surplus (symbols.filter Name.isSimple)) rfl
  missingType := by
    rw [count_verify_of_ne trace root .missingType (by decide)]
    exact hcoherent.sum_gaps_arrivals
  unknownPrimitive := by
    rw [count_verify_of_ne trace root .unknownPrimitive (by decide)]
    exact sum_map_countp_singleton (fun arrival : Arrival => arrival.type.hasUnknownToken) _
  nestedUnion := count_verify_of_ne trace root .nestedUnion (by decide)
  duplicateBranch := count_verify_of_ne trace root .duplicateBranch (by decide)

/-- A record with a reserved name, in which two fields have the same name, a fixed and another one
claim the same fullname, and an array without items is used twice. -/
def tangle : Schema :=
  .record 0 (.declare "map" "" "" .unknown)
    [⟨"x", some point⟩, ⟨"x", some (.fixed 2 (.declare "Point" "" "" .unknown) 8)⟩,
      ⟨"y", some (.array 3 none)⟩, ⟨"z", some (.array 3 none)⟩]

/-- What is wrong with a schema does not make it incoherent. -/
theorem coherent_tangle : tangle.Coherent := by
  refine @Coherent.of_closed _ [tangle, point, .fixed 2 (.declare "Point" "" "" .unknown) 8,
    .array 3 none] ?_ ?_ ?_
  · simp
  · simp [tangle, point, children]
  · decide

/-- The missing items of an array count at each of its two uses, and the repeated field name and the
reserved name once each. -/
theorem failure_counts_tangle : tangle.Coherent ∧
    {type ∈ tangle.definitions | ∃ short, type.nameError? = some (.reserved short)}.ncard = 1 ∧
    ∑ᶠ type ∈ tangle.definitions, surplus (type.fieldNames.filter Name.isSimple) = 1 ∧
    (∑ᶠ type ∈ tangle.definitions, type.gaps) +
      (((tangle.arrivals Definition.innerNamespace).filter fun arrival =>
        !arrival.type.isNamed).map fun arrival => arrival.type.gaps).sum = 2 := by
  have hcounts := coherent_tangle.failure_counts false
  rw [← hcounts.reservedName, ← hcounts.duplicateField, ← hcounts.missingType, count_verify,
    count_verify, count_verify]
  exact ⟨coherent_tangle, rfl, rfl, rfl⟩

end Schema

end AvroSchema
