import Mathlib.Algebra.Ring.Nat
import Mathlib.Data.List.Nodup
import Mathlib.Data.Set.Basic
import AvroSchema.Schema.Naming

/-!
# Arrivals of a depth-first walk

`Schema.Reaches` says which types lie below a root, whatever way is taken to them. `Arrival.walk` is
a depth-first walk that keeps a list of the arrivals it has yet to make: it enters a named type only
when it first arrives there, and any other type at every arrival. How a definition changes the
namespace for the types inside it is left open.

The main statements hold for coherent schemas, in which no two named types share an identity:
everything below the root is arrived at (`exists_arrival_of_reaches`), nothing else is
(`reaches_of_mem_arrivals`), and no named type is entered twice (`nodup_named_nodes_arrivals`).
-/

namespace AvroSchema

namespace Schema

/-- The types directly below a type, in the order of their declaration. -/
def children : Schema → List Schema
  | record _ _ fields => fields.filterMap Field.type
  | array _ items => items.toList
  | map _ values => values.toList
  | union _ branches => branches.filterMap id
  | primitive .. | enum .. | fixed .. => []

/-- A type lies below a root if it is the root or a child of a type below the root. -/
inductive Reaches (root : Schema) : Schema → Prop where
  | root : Reaches root root
  | child (outer inner) : Reaches root outer → inner ∈ outer.children → Reaches root inner

/-- No two named types below a root share an identity. A node of a type graph has one content, so
every schema that a type graph unfolds to is coherent. -/
def Coherent (root : Schema) : Prop :=
  ∀ first second, root.Reaches first → root.Reaches second → first.isNamed → second.isNamed →
    first.node = second.node → first = second

/-- The named types below a root. -/
def definitions (root : Schema) : Set Schema :=
  {type | root.Reaches type ∧ type.isNamed}

/-- The named nodes that have been entered once a type has been. -/
def enter (type : Schema) (entered : List NodeId) : List NodeId :=
  if type.isNamed then type.node :: entered else entered

/-- The types of fields are smaller than the fields altogether. -/
theorem sum_size_of_field_types_le (fields : List Field) :
    ((fields.filterMap Field.type).map sizeOf).sum ≤ sizeOf fields := by
  induction fields with
  | nil => simp
  | cons field rest ih =>
      obtain ⟨name, _ | type⟩ := field
      · simp
        omega
      · simp
        omega

/-- The branches that are there are smaller than all branches altogether. -/
theorem sum_size_of_branches_le (branches : List (Option Schema)) :
    ((branches.filterMap id).map sizeOf).sum ≤ sizeOf branches := by
  induction branches with
  | nil => simp
  | cons branch rest ih =>
      cases branch with
      | none =>
          rw [List.filterMap_cons_none rfl, List.cons.sizeOf_spec]
          omega
      | some type =>
          have hpresent : (some type :: rest).filterMap id = type :: rest.filterMap id := rfl
          rw [hpresent, List.map_cons, List.sum_cons, List.cons.sizeOf_spec,
            Option.some.sizeOf_spec]
          omega

/-- The children of a type are smaller altogether than the type. -/
theorem sum_size_of_children_lt (type : Schema) :
    (type.children.map sizeOf).sum < sizeOf type := by
  cases type with
  | primitive | enum | fixed =>
      simp only [children, List.map_nil, List.sum_nil, primitive.sizeOf_spec, enum.sizeOf_spec,
        fixed.sizeOf_spec]
      omega
  | record node definition fields =>
      have hsmaller := sum_size_of_field_types_le fields
      simp only [children, record.sizeOf_spec]
      omega
  | array _ child | map _ child =>
      cases child with
      | none => simp [children]
      | some type =>
          simp [children]
          omega
  | union node branches =>
      have hsmaller := sum_size_of_branches_le branches
      simp only [children, union.sizeOf_spec]
      omega

end Schema

/-- A rule for the namespace of the types inside a definition, given the namespace that the
definition is reached with. -/
abbrev Inheritance := Definition → String → String

/-- A type together with the namespace that it is reached with. -/
structure Arrival where
  type : Schema
  enclosing : String

namespace Arrival

/-- The namespace that the children of a type are reached with: a definition hands down a namespace
of its own, and any other type the one it was reached with. -/
def handedDown (inherit : Inheritance) (arrival : Arrival) : String :=
  match arrival.type.definition? with
  | some definition => inherit definition arrival.enclosing
  | none => arrival.enclosing

/-- The arrivals at the children of a type. -/
def next (inherit : Inheritance) (arrival : Arrival) : List Arrival :=
  arrival.type.children.map fun child => ⟨child, arrival.handedDown inherit⟩

/-- The arrivals at children are smaller altogether than the arrival at the type itself. -/
theorem sum_size_of_next_lt (inherit : Inheritance) (arrival : Arrival) :
    ((arrival.next inherit).map fun arrival => sizeOf arrival.type).sum < sizeOf arrival.type := by
  simpa [next, Function.comp_def] using arrival.type.sum_size_of_children_lt

/-- The walk that goes on with the arrivals that are yet to be made, the next one first, after the
given named nodes have been entered. -/
def walk (inherit : Inheritance) (entered : List NodeId) : List Arrival → List Arrival
  | [] => []
  | arrival :: waiting =>
      if arrival.type.isNamed && entered.contains arrival.type.node then
        walk inherit entered waiting
      else
        arrival :: walk inherit (arrival.type.enter entered) (arrival.next inherit ++ waiting)
termination_by waiting => (waiting.map fun arrival => sizeOf arrival.type).sum
decreasing_by
  · have hsmaller := arrival.type.sum_size_of_children_lt
    simp only [List.map_cons, List.sum_cons]
    omega
  · have hsmaller := sum_size_of_next_lt inherit arrival
    simp only [List.map_append, List.sum_append, List.map_cons, List.sum_cons]
    omega

/-- The named nodes among the types arrived at. -/
def namedNodes (arrivals : List Arrival) : List NodeId :=
  (arrivals.filter fun arrival => arrival.type.isNamed).map fun arrival => arrival.type.node

variable {inherit : Inheritance} {entered : List NodeId} {waiting : List Arrival}

/-- Without an arrival to be made, the walk is over. -/
theorem walk_nil : walk inherit entered [] = [] := by
  rw [walk]

/-- A named node that has been entered is passed over. -/
theorem walk_of_entered {arrival : Arrival} (hnamed : arrival.type.isNamed)
    (h : arrival.type.node ∈ entered) :
    walk inherit entered (arrival :: waiting) = walk inherit entered waiting := by
  simp [walk, hnamed, h]

/-- A named node that has not been entered is entered. -/
theorem walk_of_not_entered {arrival : Arrival}
    (h : arrival.type.isNamed → arrival.type.node ∉ entered) :
    walk inherit entered (arrival :: waiting) =
      arrival :: walk inherit (arrival.type.enter entered) (arrival.next inherit ++ waiting) := by
  rw [walk, if_neg]
  simpa using h

/-- The walk arrives only at what it waits for and at what lies below that. -/
theorem reaches_of_mem_walk {root : Schema}
    (hbelow : ∀ arrival ∈ waiting, root.Reaches arrival.type) :
    ∀ arrival ∈ walk inherit entered waiting, root.Reaches arrival.type := by
  fun_induction walk inherit entered waiting with
  | case1 => simp
  | case2 entered first waiting hpassed ih =>
      exact ih fun arrival h => hbelow arrival (.tail _ h)
  | case3 entered first waiting hnew ih =>
      have hbelowNext : ∀ arrival ∈ first.next inherit ++ waiting, root.Reaches arrival.type := by
        intro arrival h
        rcases List.mem_append.1 h with h | h
        · obtain ⟨child, hchild, rfl⟩ := List.mem_map.1 h
          exact .child _ _ (hbelow first List.mem_cons_self) hchild
        · exact hbelow arrival (.tail _ h)
      intro arrival h
      rcases List.mem_cons.1 h with rfl | h
      · exact hbelow arrival List.mem_cons_self
      · exact ih hbelowNext arrival h

/-- A named node stands first among the named nodes of the arrivals that it comes before. -/
theorem named_nodes_cons_of_named {arrival : Arrival} (hnamed : arrival.type.isNamed)
    (arrivals : List Arrival) :
    namedNodes (arrival :: arrivals) = arrival.type.node :: namedNodes arrivals := by
  simp [namedNodes, hnamed]

/-- A type without a name adds nothing to the named nodes. -/
theorem named_nodes_cons_of_not_named {arrival : Arrival} (hunnamed : arrival.type.isNamed = false)
    (arrivals : List Arrival) : namedNodes (arrival :: arrivals) = namedNodes arrivals := by
  simp [namedNodes, hunnamed]

/-- The walk never enters a named node that has been entered. -/
theorem not_mem_entered_of_mem_named_nodes {node : NodeId}
    (h : node ∈ namedNodes (walk inherit entered waiting)) : node ∉ entered := by
  fun_induction walk inherit entered waiting with
  | case1 => simp [namedNodes] at h
  | case2 entered first waiting hpassed ih => exact ih h
  | case3 entered first waiting hnew ih =>
      cases hnamed : first.type.isNamed with
      | false =>
          rw [named_nodes_cons_of_not_named hnamed] at h
          simpa [Schema.enter, hnamed] using ih h
      | true =>
          rw [named_nodes_cons_of_named hnamed, List.mem_cons] at h
          rcases h with rfl | h
          · simpa [hnamed] using hnew
          · have hlater := ih h
            simp only [Schema.enter, hnamed, if_true, List.mem_cons, not_or] at hlater
            exact hlater.2

/-- The walk enters every named node once. -/
theorem nodup_named_nodes_walk : (namedNodes (walk inherit entered waiting)).Nodup := by
  fun_induction walk inherit entered waiting with
  | case1 => exact List.nodup_nil
  | case2 entered first waiting hpassed ih => exact ih
  | case3 entered first waiting hnew ih =>
      cases hnamed : first.type.isNamed with
      | false => rwa [named_nodes_cons_of_not_named hnamed]
      | true =>
          rw [named_nodes_cons_of_named hnamed]
          -- The rest of the walk starts from a list that the node has been added to.
          refine List.nodup_cons.2 ⟨fun hagain => ?_, ih⟩
          have hnotEntered := not_mem_entered_of_mem_named_nodes hagain
          simp [Schema.enter, hnamed] at hnotEntered

/-- A type is met by arrivals if one of them is at the type, or if it is named and its node is
entered there or was entered before. -/
def Met (entered : List NodeId) (arrivals : List Arrival) (type : Schema) : Prop :=
  (∃ arrival ∈ arrivals, arrival.type = type) ∨
    (type.isNamed ∧ (type.node ∈ entered ∨ type.node ∈ namedNodes arrivals))

/-- What is met after an arrival is met from that arrival on. -/
theorem Met.cons {first : Arrival} {arrivals : List Arrival} {type : Schema}
    (h : Met (first.type.enter entered) arrivals type) : Met entered (first :: arrivals) type := by
  rcases h with ⟨arrival, h, rfl⟩ | ⟨hnamed, h⟩
  · exact .inl ⟨arrival, .tail _ h, rfl⟩
  · refine .inr ⟨hnamed, ?_⟩
    cases hfirstNamed : first.type.isNamed with
    | false => simpa [named_nodes_cons_of_not_named hfirstNamed, Schema.enter, hfirstNamed] using h
    | true =>
        simp only [Schema.enter, hfirstNamed, if_true, List.mem_cons] at h
        rw [named_nodes_cons_of_named hfirstNamed, List.mem_cons]
        rcases h with (hsame | hbefore) | hafter
        · exact .inr (.inl hsame)
        · exact .inl hbefore
        · exact .inr (.inr hafter)

/-- Whatever the walk waits for is met. -/
theorem met_of_mem_waiting {arrival : Arrival} (h : arrival ∈ waiting) :
    Met entered (walk inherit entered waiting) arrival.type := by
  fun_induction walk inherit entered waiting with
  | case1 => simp at h
  | case2 entered first waiting hpassed ih =>
      rcases List.mem_cons.1 h with rfl | h
      · simp only [Bool.and_eq_true, List.contains_iff_mem] at hpassed
        exact .inr ⟨hpassed.1, .inl hpassed.2⟩
      · exact ih h
  | case3 entered first waiting hnew ih =>
      rcases List.mem_cons.1 h with rfl | h
      · exact .inl ⟨arrival, List.mem_cons_self, rfl⟩
      · exact (ih (List.mem_append_right _ h)).cons

/-- The children of every type that the walk arrives at are met. -/
theorem met_of_mem_children {arrival : Arrival} (h : arrival ∈ walk inherit entered waiting)
    {child : Schema} (hchild : child ∈ arrival.type.children) :
    Met entered (walk inherit entered waiting) child := by
  fun_induction walk inherit entered waiting with
  | case1 => simp at h
  | case2 entered first waiting hpassed ih => exact ih h
  | case3 entered first waiting hnew ih =>
      rcases List.mem_cons.1 h with rfl | h
      · -- The child is among what the walk waits for once it has entered its parent.
        have hwaits : ⟨child, arrival.handedDown inherit⟩ ∈ arrival.next inherit ++ waiting :=
          List.mem_append_left _ (List.mem_map.2 ⟨child, hchild, rfl⟩)
        exact (met_of_mem_waiting hwaits).cons
      · exact (ih h).cons

/-- Two rules that agree on the definitions arrived at make the same walk. -/
theorem walk_congr {other : Inheritance}
    (hagree : ∀ arrival ∈ walk inherit entered waiting, ∀ definition,
      arrival.type.definition? = some definition →
        inherit definition arrival.enclosing = other definition arrival.enclosing) :
    walk inherit entered waiting = walk other entered waiting := by
  fun_induction walk inherit entered waiting with
  | case1 => simp [walk]
  | case2 entered first waiting hpassed ih =>
      rw [walk, if_pos hpassed]
      exact ih hagree
  | case3 entered first waiting hnew ih =>
      -- The rules need only agree where the walk arrives, and it has just arrived at `first`.
      have hsameNext : first.next inherit = first.next other := by
        have hsameNamespace : first.handedDown inherit = first.handedDown other := by
          unfold handedDown
          split
          · next definition h => exact hagree first List.mem_cons_self definition h
          · rfl
        rw [next, next, hsameNamespace]
      rw [walk, if_neg hnew, ← hsameNext]
      exact congrArg _ (ih fun arrival h => hagree arrival (.tail _ h))

end Arrival

namespace Schema

/-- The arrivals of the walk from the root of a schema, in order. -/
def arrivals (inherit : Inheritance) (root : Schema) : List Arrival :=
  Arrival.walk inherit [] [⟨root, ""⟩]

variable {inherit : Inheritance} {root type : Schema}

/-- The walk from the root arrives only at what lies below the root. -/
theorem reaches_of_mem_arrivals {arrival : Arrival} (h : arrival ∈ root.arrivals inherit) :
    root.Reaches arrival.type := by
  refine Arrival.reaches_of_mem_walk ?_ arrival h
  simpa using Reaches.root

/-- The walk from the root enters every named node once. -/
theorem nodup_named_nodes_arrivals : (Arrival.namedNodes (root.arrivals inherit)).Nodup :=
  Arrival.nodup_named_nodes_walk

/-- In a coherent schema, the walk from the root arrives at everything that it meets. -/
theorem Coherent.exists_arrival_of_met (hcoherent : root.Coherent) (hbelow : root.Reaches type)
    (h : Arrival.Met [] (root.arrivals inherit) type) :
    ∃ arrival ∈ root.arrivals inherit, arrival.type = type := by
  rcases h with h | ⟨hnamed, h | h⟩
  · exact h
  · simp at h
  · simp only [Arrival.namedNodes, List.mem_map, List.mem_filter] at h
    obtain ⟨arrival, ⟨h, hotherNamed⟩, hsameNode⟩ := h
    exact ⟨arrival, h,
      hcoherent _ _ (reaches_of_mem_arrivals h) hbelow hotherNamed hnamed hsameNode⟩

/-- In a coherent schema, the walk from the root arrives at everything below it. -/
theorem Coherent.exists_arrival_of_reaches (hcoherent : root.Coherent) (h : root.Reaches type) :
    ∃ arrival ∈ root.arrivals inherit, arrival.type = type := by
  induction h with
  | root =>
      have hwaits : (⟨root, ""⟩ : Arrival) ∈ [(⟨root, ""⟩ : Arrival)] := List.mem_cons_self
      exact hcoherent.exists_arrival_of_met .root (Arrival.met_of_mem_waiting hwaits)
  | child outer inner hbelow hchild ih =>
      obtain ⟨arrival, h, rfl⟩ := ih
      exact hcoherent.exists_arrival_of_met (.child _ _ hbelow hchild)
        (Arrival.met_of_mem_children h hchild)

/-- Types that include the root and all their children include whatever lies below the root. -/
theorem Reaches.mem_of_closed {types : List Schema} (hroot : root ∈ types)
    (hclosed : ∀ type ∈ types, ∀ child ∈ type.children, child ∈ types)
    (hbelow : root.Reaches type) : type ∈ types := by
  induction hbelow with
  | root => exact hroot
  | child outer inner hbelow hchild ih => exact hclosed outer ih inner hchild

/-- A schema is coherent if its root belongs to some types that include all their children and of
which no two named ones share an identity. -/
theorem Coherent.of_closed {types : List Schema} (hroot : root ∈ types)
    (hclosed : ∀ type ∈ types, ∀ child ∈ type.children, child ∈ types)
    (hdistinct : ((types.filter isNamed).map node).Nodup) : root.Coherent := by
  intro first second hbelowFirst hbelowSecond hfirstNamed hsecondNamed hsameNode
  have hfirst : first ∈ types.filter isNamed :=
    List.mem_filter.2 ⟨hbelowFirst.mem_of_closed hroot hclosed, hfirstNamed⟩
  have hsecond : second ∈ types.filter isNamed :=
    List.mem_filter.2 ⟨hbelowSecond.mem_of_closed hroot hclosed, hsecondNamed⟩
  exact List.inj_on_of_nodup_map hdistinct hfirst hsecond hsameNode

/-- A fixed named inside a namespace. -/
def point : Schema :=
  .fixed 1 (.declare "Point" "" "geo" .unknown) 16

/-- A record with two uses of one fixed, in a field and in a branch of a union. -/
def segment : Schema :=
  .record 0 (.declare "Segment" "geo" "" .unknown)
    [⟨"start", some point⟩, ⟨"end", some (.union 2 [some (.primitive 3 "null"), some point])⟩]

/-- What is shared does not make a schema incoherent. -/
theorem coherent_segment : segment.Coherent := by
  refine @Coherent.of_closed _ [segment, point, .union 2 [some (.primitive 3 "null"), some point],
    .primitive 3 "null"] ?_ ?_ ?_
  · simp
  · simp [segment, point, children]
  · decide

end Schema

end AvroSchema
