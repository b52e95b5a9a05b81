import Mathlib.Algebra.BigOperators.Finprod
import Mathlib.Data.Set.Card
import AvroSchema.Proofs.Arrivals

/-!
# Counting definitions

The walk enters every named type below its root once. So the named types with a property can be
counted along the walk (`Coherent.ncard_definitions`), and numbers that belong to the named types
can be added up along the walk (`Coherent.sum_arrivals_eq_finsum`). The results have nothing to do
with the walk.
-/

namespace AvroSchema

/-- A list without repetitions is as long as the set of its items is large. -/
theorem ncard_set_of_mem {α : Type} {items : List α} (hnodup : items.Nodup) :
    {item | item ∈ items}.ncard = items.length := by
  classical
  rw [← List.coe_toFinset, Set.ncard_coe_finset, List.toFinset_card_of_nodup hnodup]

/-- A sum along a list without repetitions is the sum over the set of its items. -/
theorem finsum_set_of_mem {α : Type} {items : List α} (hnodup : items.Nodup) (f : α → Nat) :
    ∑ᶠ item ∈ {item | item ∈ items}, f item = (items.map f).sum := by
  classical
  rw [← List.coe_toFinset, finsum_mem_coe_finset, List.sum_toFinset f hnodup]

namespace Schema

/-- The named types that the walk from a root enters, in order. -/
def enteredTypes (inherit : Inheritance) (root : Schema) : List Schema :=
  ((root.arrivals inherit).filter fun arrival => arrival.type.isNamed).map Arrival.type

variable {inherit : Inheritance} {root : Schema}

/-- The walk enters every named type once. -/
theorem nodup_entered_types : (root.enteredTypes inherit).Nodup := by
  have hnodup := @nodup_named_nodes_arrivals inherit root
  rw [Arrival.namedNodes, ← Function.comp_def, ← List.map_map] at hnodup
  exact hnodup.of_map

/-- In a coherent schema, the walk enters the named types below the root. -/
theorem Coherent.set_of_mem_entered_types (hcoherent : root.Coherent) :
    {type | type ∈ root.enteredTypes inherit} = root.definitions := by
  ext type
  simp only [enteredTypes, Set.mem_ofPred_eq, List.mem_map, List.mem_filter]
  constructor
  · rintro ⟨arrival, ⟨harrival, hnamed⟩, rfl⟩
    exact ⟨reaches_of_mem_arrivals harrival, hnamed⟩
  · rintro ⟨hbelow, hnamed⟩
    obtain ⟨arrival, harrival, rfl⟩ := hcoherent.exists_arrival_of_reaches hbelow
    exact ⟨arrival, ⟨harrival, hnamed⟩, rfl⟩

/-- In a coherent schema, what named types contribute to a sum along the walk is a sum over the
named types below the root. -/
theorem Coherent.sum_named_arrivals_eq_finsum (hcoherent : root.Coherent) (f : Schema → Nat) :
    (((root.arrivals inherit).filter fun arrival => arrival.type.isNamed).map fun arrival =>
      f arrival.type).sum = ∑ᶠ type ∈ root.definitions, f type := by
  rw [← hcoherent.set_of_mem_entered_types, finsum_set_of_mem nodup_entered_types, enteredTypes,
    List.map_map]
  rfl

/-- In a coherent schema, a sum along the walk to which only named types contribute is a sum over
the named types below the root. -/
theorem Coherent.sum_arrivals_eq_finsum (hcoherent : root.Coherent) {f : Schema → Nat}
    (hunnamed : ∀ type, type.isNamed = false → f type = 0) :
    ((root.arrivals inherit).map fun arrival => f arrival.type).sum =
      ∑ᶠ type ∈ root.definitions, f type := by
  rw [← @Coherent.sum_named_arrivals_eq_finsum inherit root hcoherent]
  induction root.arrivals inherit with
  | nil => rfl
  | cons arrival rest ih =>
      cases hnamed : arrival.type.isNamed with
      | true => simp [hnamed, ih]
      | false => simp [hnamed, hunnamed _ hnamed, ih]

/-- The named types that have a property where they are entered can be counted along the walk. -/
theorem ncard_definitions_entered {property : Arrival → Bool}
    (hofNamed : ∀ arrival, property arrival → arrival.type.isNamed) :
    {type ∈ root.definitions | ∃ enclosing, ⟨type, enclosing⟩ ∈ root.arrivals inherit ∧
      property ⟨type, enclosing⟩}.ncard = (root.arrivals inherit).countP property := by
  have hnodup : (((root.arrivals inherit).filter property).map Arrival.type).Nodup := by
    have hsublist : ((root.arrivals inherit).filter property).Sublist
        ((root.arrivals inherit).filter fun arrival => arrival.type.isNamed) :=
      List.monotone_filter_right _ hofNamed
    exact (hsublist.map _).nodup nodup_entered_types
  have hsameTypes : {type ∈ root.definitions | ∃ enclosing,
      ⟨type, enclosing⟩ ∈ root.arrivals inherit ∧ property ⟨type, enclosing⟩} =
        {type | type ∈ ((root.arrivals inherit).filter property).map Arrival.type} := by
    ext type
    simp only [Set.mem_ofPred_eq, List.mem_map, List.mem_filter]
    constructor
    · rintro ⟨-, enclosing, harrival, hholds⟩
      exact ⟨⟨type, enclosing⟩, ⟨harrival, hholds⟩, rfl⟩
    · rintro ⟨arrival, ⟨harrival, hholds⟩, rfl⟩
      exact ⟨⟨reaches_of_mem_arrivals harrival, hofNamed arrival hholds⟩, arrival.enclosing,
        harrival, hholds⟩
  rw [hsameTypes, ncard_set_of_mem hnodup, List.length_map, ← List.countP_eq_length_filter]

/-- In a coherent schema, the named types with a property can be counted along the walk. -/
theorem Coherent.ncard_definitions (hcoherent : root.Coherent) {property : Schema → Bool}
    (hofNamed : ∀ type, property type → type.isNamed) :
    {type ∈ root.definitions | property type}.ncard =
      (root.arrivals inherit).countP fun arrival => property arrival.type := by
  rw [← ncard_definitions_entered fun arrival => hofNamed arrival.type]
  congr 1
  ext type
  constructor
  · rintro ⟨hdefinition, hholds⟩
    obtain ⟨arrival, harrival, rfl⟩ := hcoherent.exists_arrival_of_reaches hdefinition.1
    exact ⟨hdefinition, arrival.enclosing, harrival, hholds⟩
  · rintro ⟨hdefinition, enclosing, -, hholds⟩
    exact ⟨hdefinition, hholds⟩

end Schema

end AvroSchema
