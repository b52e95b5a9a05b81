import Mathlib.Algebra.Order.BigOperators.Group.List
import Mathlib.Algebra.Order.Group.Nat
import AvroSchema.Proofs.Arrivals

/-!
# Unfolding a schema

`Schema.Unshared` says that no named node is reached along two different paths. `Arrival.unfold`
makes every arrival that there is, with no regard to the nodes that have been entered. The main
statements are that a schema is unshared if and only if its unfolding comes to no named node twice
(`nodup_named_nodes_unfold_iff`), and that the walk from the root of such a schema is its unfolding
(`Unshared.arrivals_eq_unfold`).
-/

namespace AvroSchema

namespace Schema

/-- The type at the end of a path, which tells at each type the position of the child to go on
with. -/
def follow (type : Schema) : List Nat → Option Schema
  | [] => some type
  | position :: rest => type.children[position]?.bind fun child => child.follow rest

/-- A path leads to a named node if the type at its end is named and has that identity. -/
def LeadsTo (type : Schema) (path : List Nat) (node : NodeId) : Prop :=
  ∃ inner, type.follow path = some inner ∧ inner.isNamed ∧ inner.node = node

/-- No named node is reached along two different paths. -/
def Unshared (root : Schema) : Prop :=
  ∀ node path other, root.LeadsTo path node → root.LeadsTo other node → path = other

/-- A child is smaller than its parent. -/
theorem size_of_lt_of_mem_children {type child : Schema} (h : child ∈ type.children) :
    sizeOf child < sizeOf type := by
  have hsmaller := type.sum_size_of_children_lt
  have hpart : sizeOf child ≤ (type.children.map sizeOf).sum :=
    List.le_sum_of_mem (List.mem_map_of_mem h)
  omega

/-- What holds of a type whenever it holds of its children holds of all types. -/
theorem induction_on_children {motive : Schema → Prop}
    (step : ∀ type, (∀ child ∈ type.children, motive child) → motive type) (type : Schema) :
    motive type :=
  step type fun child h =>
    have _ := size_of_lt_of_mem_children h
    induction_on_children step child
termination_by sizeOf type

/-- The empty path leads to the type itself. -/
theorem leads_to_nil {type : Schema} {node : NodeId} :
    type.LeadsTo [] node ↔ type.isNamed ∧ type.node = node := by
  simp [LeadsTo, follow]

/-- Any other path leads on from a child. -/
theorem leads_to_cons {type : Schema} {position : Nat} {rest : List Nat} {node : NodeId} :
    type.LeadsTo (position :: rest) node ↔
      ∃ child, type.children[position]? = some child ∧ child.LeadsTo rest node := by
  simp only [LeadsTo, follow, Option.bind_eq_some_iff]
  constructor
  · rintro ⟨inner, ⟨child, hchild, hfound⟩, hnamed, hsame⟩
    exact ⟨child, hchild, inner, hfound, hnamed, hsame⟩
  · rintro ⟨child, hchild, inner, hfound, hnamed, hsame⟩
    exact ⟨inner, ⟨child, hchild, hfound⟩, hnamed, hsame⟩

/-- A type is unshared if and only if its children are, none of them leads back to it, and no two of
them lead to the same named node. -/
theorem unshared_iff {type : Schema} :
    type.Unshared ↔
      (type.isNamed → ∀ child ∈ type.children, ∀ path, ¬ child.LeadsTo path type.node) ∧
        (∀ child ∈ type.children, child.Unshared) ∧
          type.children.Pairwise fun first second =>
            ∀ node path other, first.LeadsTo path node → ¬ second.LeadsTo other node := by
  constructor
  · intro hunshared
    refine ⟨?_, ?_, ?_⟩
    · intro hnamed child hchild path hback
      obtain ⟨position, hfound⟩ := List.mem_iff_getElem?.1 hchild
      have hagain := hunshared _ _ _ (leads_to_nil.2 ⟨hnamed, rfl⟩)
        (leads_to_cons.2 ⟨child, hfound, hback⟩)
      cases hagain
    · intro child hchild node path other hfirst hsecond
      obtain ⟨position, hfound⟩ := List.mem_iff_getElem?.1 hchild
      have hsame := hunshared _ _ _ (leads_to_cons.2 ⟨child, hfound, hfirst⟩)
        (leads_to_cons.2 ⟨child, hfound, hsecond⟩)
      exact (List.cons.inj hsame).2
    · rw [List.pairwise_iff_getElem]
      intro i j hi hj hbefore node path other hfirst hsecond
      have hsame := hunshared _ _ _
        (leads_to_cons.2 ⟨_, List.getElem?_eq_getElem hi, hfirst⟩)
        (leads_to_cons.2 ⟨_, List.getElem?_eq_getElem hj, hsecond⟩)
      have hsamePosition := (List.cons.inj hsame).1
      omega
  · rintro ⟨hnotBack, hunsharedChildren, hapart⟩ node path other hfirst hsecond
    rw [List.pairwise_iff_getElem] at hapart
    cases path with
    | nil =>
        obtain ⟨hnamed, rfl⟩ := leads_to_nil.1 hfirst
        cases other with
        | nil => rfl
        | cons j rest =>
            obtain ⟨child, hfound, hback⟩ := leads_to_cons.1 hsecond
            exact absurd hback (hnotBack hnamed child (List.mem_of_getElem? hfound) rest)
    | cons i rest =>
        obtain ⟨child, hfound, hleads⟩ := leads_to_cons.1 hfirst
        cases other with
        | nil =>
            obtain ⟨hnamed, rfl⟩ := leads_to_nil.1 hsecond
            exact absurd hleads (hnotBack hnamed child (List.mem_of_getElem? hfound) rest)
        | cons j others =>
            obtain ⟨sibling, halsoFound, halsoLeads⟩ := leads_to_cons.1 hsecond
            obtain ⟨hi, rfl⟩ := List.getElem?_eq_some_iff.1 hfound
            obtain ⟨hj, rfl⟩ := List.getElem?_eq_some_iff.1 halsoFound
            -- Different children lead to different nodes, so both paths start with one child.
            rcases Nat.lt_trichotomy i j with hbefore | rfl | hafter
            · exact absurd halsoLeads (hapart i j hi hj hbefore node rest others hleads)
            · rw [hunsharedChildren _ (List.getElem_mem hi) node rest others hleads halsoLeads]
            · exact absurd hleads (hapart j i hj hi hafter node others rest halsoLeads)

end Schema

namespace Arrival

variable {inherit : Inheritance}

/-- The arrivals of a walk that enters every type whenever it comes to it. -/
def unfold (inherit : Inheritance) : List Arrival → List Arrival
  | [] => []
  | arrival :: waiting => arrival :: unfold inherit (arrival.next inherit ++ waiting)
termination_by waiting => (waiting.map fun arrival => sizeOf arrival.type).sum
decreasing_by
  have hsmaller := sum_size_of_next_lt inherit arrival
  simp only [List.map_append, List.sum_append, List.map_cons, List.sum_cons]
  omega

/-- Without an arrival to be made, there is nothing to unfold. -/
@[simp] theorem unfold_nil : unfold inherit [] = [] := by
  rw [unfold]

/-- What waits is unfolded part by part. -/
theorem unfold_append (first second : List Arrival) :
    unfold inherit (first ++ second) = unfold inherit first ++ unfold inherit second := by
  fun_induction unfold inherit first with
  | case1 => rfl
  | case2 arrival waiting ih =>
      rw [List.cons_append, unfold, ← List.append_assoc, ih]
      rfl

/-- What waits is unfolded arrival by arrival. -/
theorem unfold_eq_flat_map (waiting : List Arrival) :
    unfold inherit waiting = waiting.flatMap fun arrival => unfold inherit [arrival] := by
  induction waiting with
  | nil => simp
  | cons arrival rest ih =>
      rw [List.flatMap_cons, ← ih, ← unfold_append, List.singleton_append]

/-- An arrival is unfolded into itself and the arrivals at the children and below. -/
theorem unfold_singleton (arrival : Arrival) :
    unfold inherit [arrival] = arrival :: unfold inherit (arrival.next inherit) := by
  rw [unfold, List.append_nil]

/-- What waits in another order is unfolded into the same arrivals in another order. -/
theorem perm_unfold {waiting others : List Arrival} (h : waiting.Perm others) :
    (unfold inherit waiting).Perm (unfold inherit others) := by
  rw [unfold_eq_flat_map waiting, unfold_eq_flat_map others]
  exact h.flatMap_right _

/-- The named nodes of two lists of arrivals are those of both together. -/
theorem named_nodes_append (first second : List Arrival) :
    namedNodes (first ++ second) = namedNodes first ++ namedNodes second := by
  simp [namedNodes]

/-- The named nodes below an arrival are those below its children. -/
theorem named_nodes_unfold_next (arrival : Arrival) :
    namedNodes (unfold inherit (arrival.next inherit)) =
      arrival.type.children.flatMap fun child =>
        namedNodes (unfold inherit [⟨child, arrival.handedDown inherit⟩]) := by
  rw [next, unfold_eq_flat_map, List.flatMap_map]
  induction arrival.type.children with
  | nil => rfl
  | cons child rest ih => rw [List.flatMap_cons, named_nodes_append, ih, List.flatMap_cons]

/-- An unfolding comes to the named nodes that paths lead to. -/
theorem mem_named_nodes_unfold_iff {node : NodeId} (type : Schema) (enclosing : String) :
    node ∈ namedNodes (unfold inherit [⟨type, enclosing⟩]) ↔ ∃ path, type.LeadsTo path node := by
  induction type using Schema.induction_on_children generalizing enclosing with
  | step type ih =>
      have hbelow : node ∈ namedNodes (unfold inherit (next inherit ⟨type, enclosing⟩)) ↔
          ∃ position rest, type.LeadsTo (position :: rest) node := by
        rw [named_nodes_unfold_next, List.mem_flatMap]
        constructor
        · rintro ⟨child, hchild, h⟩
          obtain ⟨rest, hleads⟩ := (ih child hchild _).1 h
          obtain ⟨position, hfound⟩ := List.mem_iff_getElem?.1 hchild
          exact ⟨position, rest, Schema.leads_to_cons.2 ⟨child, hfound, hleads⟩⟩
        · rintro ⟨position, rest, hleads⟩
          obtain ⟨child, hfound, hleadsOn⟩ := Schema.leads_to_cons.1 hleads
          have hchild := List.mem_of_getElem? hfound
          exact ⟨child, hchild, (ih child hchild _).2 ⟨rest, hleadsOn⟩⟩
      rw [unfold_singleton]
      constructor
      · intro h
        cases hnamed : type.isNamed with
        | false =>
            rw [named_nodes_cons_of_not_named hnamed] at h
            obtain ⟨position, rest, hleads⟩ := hbelow.1 h
            exact ⟨position :: rest, hleads⟩
        | true =>
            rw [named_nodes_cons_of_named hnamed] at h
            rcases List.mem_cons.1 h with rfl | h
            · exact ⟨[], Schema.leads_to_nil.2 ⟨hnamed, rfl⟩⟩
            · obtain ⟨position, rest, hleads⟩ := hbelow.1 h
              exact ⟨position :: rest, hleads⟩
      · rintro ⟨path, hleads⟩
        cases path with
        | nil =>
            obtain ⟨hnamed, rfl⟩ := Schema.leads_to_nil.1 hleads
            rw [named_nodes_cons_of_named hnamed]
            exact List.mem_cons_self
        | cons position rest =>
            have hisBelow := hbelow.2 ⟨position, rest, hleads⟩
            cases hnamed : type.isNamed with
            | false => rwa [named_nodes_cons_of_not_named hnamed]
            | true =>
                rw [named_nodes_cons_of_named hnamed]
                exact .tail _ hisBelow

/-- Two types lead to different named nodes if and only if their unfoldings come to none in
common. -/
theorem disjoint_named_nodes_unfold_iff (first second : Schema) (enclosing : String) :
    (namedNodes (unfold inherit [⟨first, enclosing⟩])).Disjoint
        (namedNodes (unfold inherit [⟨second, enclosing⟩])) ↔
      ∀ node path other, first.LeadsTo path node → ¬ second.LeadsTo other node := by
  simp only [List.disjoint_left, mem_named_nodes_unfold_iff]
  constructor
  · intro hapart node path other hleads halsoLeads
    exact hapart ⟨path, hleads⟩ ⟨other, halsoLeads⟩
  · rintro hapart node ⟨path, hleads⟩ ⟨other, halsoLeads⟩
    exact hapart node path other hleads halsoLeads

/-- A schema is unshared if and only if its unfolding comes to no named node twice. -/
theorem nodup_named_nodes_unfold_iff (type : Schema) (enclosing : String) :
    (namedNodes (unfold inherit [⟨type, enclosing⟩])).Nodup ↔ type.Unshared := by
  induction type using Schema.induction_on_children generalizing enclosing with
  | step type ih =>
      have hbelow : (namedNodes (unfold inherit (next inherit ⟨type, enclosing⟩))).Nodup ↔
          (∀ child ∈ type.children, child.Unshared) ∧
            type.children.Pairwise fun first second =>
              ∀ node path other, first.LeadsTo path node → ¬ second.LeadsTo other node := by
        rw [named_nodes_unfold_next, List.nodup_flatMap]
        refine and_congr (forall₂_congr fun child hchild => ih child hchild _) ?_
        exact List.Pairwise.iff fun first second => disjoint_named_nodes_unfold_iff first second _
      have hnotBack : type.node ∉ namedNodes (unfold inherit (next inherit ⟨type, enclosing⟩)) ↔
          ∀ child ∈ type.children, ∀ path, ¬ child.LeadsTo path type.node := by
        rw [named_nodes_unfold_next, List.mem_flatMap]
        simp only [mem_named_nodes_unfold_iff, not_exists, not_and]
      rw [unfold_singleton, Schema.unshared_iff]
      cases hnamed : type.isNamed with
      | false => simp [named_nodes_cons_of_not_named, hnamed, hbelow]
      | true => simp [named_nodes_cons_of_named, hnamed, hbelow, hnotBack]

/-- Where no named node is entered twice, the walk enters every type that it comes to. -/
theorem walk_eq_unfold {entered : List NodeId} {waiting : List Arrival}
    (hnodup : (namedNodes (unfold inherit waiting)).Nodup)
    (hfresh : ∀ node ∈ namedNodes (unfold inherit waiting), node ∉ entered) :
    walk inherit entered waiting = unfold inherit waiting := by
  fun_induction unfold inherit waiting generalizing entered with
  | case1 => exact walk_nil
  | case2 arrival waiting ih =>
      cases hnamed : arrival.type.isNamed with
      | false =>
          rw [named_nodes_cons_of_not_named hnamed] at hnodup hfresh
          rw [walk_of_not_entered (by simp [hnamed]), ih hnodup]
          intro node h
          simpa [Schema.enter, hnamed] using hfresh node h
      | true =>
          rw [named_nodes_cons_of_named hnamed] at hnodup hfresh
          obtain ⟨hnew, hnodupRest⟩ := List.nodup_cons.1 hnodup
          rw [walk_of_not_entered fun _ => hfresh _ List.mem_cons_self, ih hnodupRest]
          intro node h
          simp only [Schema.enter, hnamed, if_true, List.mem_cons, not_or]
          exact ⟨fun hsame => hnew (hsame ▸ h), hfresh node (.tail _ h)⟩

end Arrival

/-- The walk from the root of an unshared schema is its unfolding. -/
theorem Schema.Unshared.arrivals_eq_unfold {root : Schema} (hunshared : root.Unshared)
    (inherit : Inheritance) : root.arrivals inherit = Arrival.unfold inherit [⟨root, ""⟩] := by
  refine Arrival.walk_eq_unfold ?_ fun node _ => List.not_mem_nil
  exact (Arrival.nodup_named_nodes_unfold_iff root "").2 hunshared

end AvroSchema
