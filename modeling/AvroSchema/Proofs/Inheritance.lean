import AvroSchema.Proofs.Acceptance
import AvroSchema.Proofs.DottedNames
import AvroSchema.Proofs.FailureCounts
import AvroSchema.Proofs.Unfolding

/-!
# Inherited namespaces

A definition records the fullname that it resolves to in the namespace of the nearest definition
around it, whatever the short name of that one is. The walk hands down another namespace: a
definition with a reserved short name is refused, and the types inside it are reached with the
namespace that it was reached with itself. The main statement says that a mismatch of fullnames is
reported exactly if this makes a difference to a definition that is not refused
(`Unshared.count_fullname_mismatch_iff`).
-/

namespace AvroSchema

/-- The namespace that is handed down if definitions with reserved names do not count: such a
definition hands down the one it is reached with, and any other one that it stands in itself. -/
def Definition.unreservedNamespace (definition : Definition) (enclosing : String) : String :=
  if Name.isReserved (definition.resolve enclosing).short then enclosing
  else definition.ownNamespace enclosing

namespace Schema

/-- The name of every definition below a root is a dotted name, and so is its explicit namespace if
it has one. Its short name may be reserved. -/
def Grammatical (root : Schema) : Prop :=
  ∀ type definition, root.Reaches type → type.definition? = some definition →
    Name.isDotted definition.name ∧ Name.IsNamespace definition.ns

/-- Every definition below a root is declared in the namespace of the nearest definition around
it, or in the empty namespace if there is none. -/
def Declared (root : Schema) : Prop :=
  ∀ arrival ∈ Arrival.unfold Definition.ownNamespace [⟨root, ""⟩], ∀ definition,
    arrival.type.definition? = some definition →
      definition =
        .declare definition.name definition.ns arrival.enclosing definition.location

/-- On the way from a root to a type, two rules hand down a namespace each. -/
inductive ReachedUnder (first second : Inheritance) (root : Schema) :
    Schema → String → String → Prop where
  | root : ReachedUnder first second root root "" ""
  | child (outer inner enclosing other) : ReachedUnder first second root outer enclosing other →
      inner ∈ outer.children →
        ReachedUnder first second root inner (Arrival.handedDown first ⟨outer, enclosing⟩)
          (Arrival.handedDown second ⟨outer, other⟩)

end Schema

namespace Arrival

variable {inherit : Inheritance} {waiting : List Arrival}

/-- What an unfolding starts from belongs to it. -/
theorem mem_unfold_of_mem {arrival : Arrival} (h : arrival ∈ waiting) :
    arrival ∈ unfold inherit waiting := by
  rw [unfold_eq_flat_map, List.mem_flatMap]
  refine ⟨arrival, h, ?_⟩
  rw [unfold_singleton]
  exact List.mem_cons_self

/-- An unfolding goes on to the children of all that belongs to it. -/
theorem mem_unfold_of_mem_next {arrival below : Arrival} (h : arrival ∈ unfold inherit waiting)
    (hnext : below ∈ arrival.next inherit) : below ∈ unfold inherit waiting := by
  fun_induction unfold inherit waiting with
  | case1 => simp at h
  | case2 first waiting ih =>
      rcases List.mem_cons.1 h with rfl | h
      · exact .tail _ (mem_unfold_of_mem (List.mem_append_left _ hnext))
      · exact .tail _ (ih h)

end Arrival

namespace Schema

variable {first second : Inheritance} {root type : Schema} {enclosing other : String}

/-- What is reached under two rules is reached. -/
theorem ReachedUnder.reaches (h : root.ReachedUnder first second type enclosing other) :
    root.Reaches type := by
  induction h with
  | root => exact .root
  | child outer inner enclosing other _ hchild ih => exact .child _ _ ih hchild

/-- What is reached under two rules belongs to the unfolding under the first. -/
theorem ReachedUnder.mem_unfold (h : root.ReachedUnder first second type enclosing other) :
    ⟨type, enclosing⟩ ∈ Arrival.unfold first [⟨root, ""⟩] := by
  induction h with
  | root => exact Arrival.mem_unfold_of_mem List.mem_cons_self
  | child outer inner enclosing other _ hchild ih =>
      exact Arrival.mem_unfold_of_mem_next ih (List.mem_map.2 ⟨inner, hchild, rfl⟩)

/-- Two rules can change places. -/
theorem ReachedUnder.symm (h : root.ReachedUnder first second type enclosing other) :
    root.ReachedUnder second first type other enclosing := by
  induction h with
  | root => exact .root
  | child outer inner enclosing other _ hchild ih => exact .child _ _ _ _ ih hchild

/-- Whatever belongs to the unfolding under the second rule is reached under both. -/
theorem exists_reached_under {waiting : List Arrival}
    (hstart : ∀ arrival ∈ waiting, ∃ enclosing,
      root.ReachedUnder first second arrival.type enclosing arrival.enclosing) :
    ∀ arrival ∈ Arrival.unfold second waiting, ∃ enclosing,
      root.ReachedUnder first second arrival.type enclosing arrival.enclosing := by
  fun_induction Arrival.unfold second waiting with
  | case1 => simp
  | case2 arrival waiting ih =>
      obtain ⟨enclosing, hreached⟩ := hstart arrival List.mem_cons_self
      intro later h
      rcases List.mem_cons.1 h with rfl | h
      · exact ⟨enclosing, hreached⟩
      · refine ih ?_ later h
        intro waits hwaiting
        rcases List.mem_append.1 hwaiting with hnext | hwaiting
        · obtain ⟨child, hchild, rfl⟩ := List.mem_map.1 hnext
          exact ⟨_, .child _ _ _ _ hreached hchild⟩
        · exact hstart waits (.tail _ hwaiting)

/-- Whatever is reached is reached under any two rules. -/
theorem Reaches.exists_reached_under (h : root.Reaches type) (first second : Inheritance) :
    ∃ enclosing other, root.ReachedUnder first second type enclosing other := by
  induction h with
  | root => exact ⟨"", "", .root⟩
  | child outer inner _ hchild ih =>
      obtain ⟨enclosing, other, hreached⟩ := ih
      exact ⟨_, _, .child _ _ _ _ hreached hchild⟩

/-- If names are grammatical, definitions stand in namespaces. -/
theorem Grammatical.is_namespace (hgrammatical : root.Grammatical)
    (h : root.ReachedUnder Definition.ownNamespace second type enclosing other) :
    Name.IsNamespace enclosing := by
  induction h with
  | root => exact .inl rfl
  | child outer inner enclosing other hreached _ ih =>
      unfold Arrival.handedDown
      split
      · next definition hdefinition =>
          obtain ⟨hdotted, hexplicit⟩ := hgrammatical outer definition hreached.reaches hdefinition
          exact QualifiedName.is_namespace_ns_resolve hdotted hexplicit ih
      · exact ih

/-- A declared definition records the fullname that it resolves to in the namespace it is declared
in. -/
theorem Declared.fullname_eq (hdeclared : root.Declared)
    (h : root.ReachedUnder Definition.ownNamespace second type enclosing other)
    {definition : Definition} (hdefinition : type.definition? = some definition) :
    definition.fullname = (definition.resolve enclosing).fullname :=
  congrArg Definition.fullname (hdeclared _ h.mem_unfold definition hdefinition)

/-- Of grammatical and declared definitions, those with reserved names are refused and no others. -/
theorem Declared.name_error_eq_none_iff (hdeclared : root.Declared)
    (hgrammatical : root.Grammatical) (hbelow : root.Reaches type) {definition : Definition}
    (hdefinition : type.definition? = some definition) (enclosing : String) :
    definition.nameError? = none ↔ ¬ Name.isReserved (definition.resolve enclosing).short := by
  obtain ⟨hdotted, hexplicit⟩ := hgrammatical type definition hbelow hdefinition
  obtain ⟨standing, other, hreached⟩ :=
    hbelow.exists_reached_under Definition.ownNamespace Definition.ownNamespace
  have hfullnameDotted : Name.isDotted definition.fullname := by
    rw [hdeclared.fullname_eq hreached hdefinition]
    exact QualifiedName.is_dotted_fullname_resolve hdotted hexplicit
      (hgrammatical.is_namespace hreached)
  rw [Definition.name_error_eq_none_iff definition enclosing]
  constructor
  · intro haccepted
    exact haccepted.2.2.2
  · intro hunreserved
    exact ⟨hdotted, hexplicit, hfullnameDotted, hunreserved⟩

/-- In a grammatical and declared schema, the walk hands down the namespaces of all definitions but
those with reserved names. -/
theorem Declared.arrivals_inner_namespace (hdeclared : root.Declared)
    (hgrammatical : root.Grammatical) :
    root.arrivals Definition.innerNamespace = root.arrivals Definition.unreservedNamespace := by
  refine Arrival.walk_congr ?_
  intro arrival harrival definition hdefinition
  have hbelow := reaches_of_mem_arrivals harrival
  have haccepted_iff :=
    hdeclared.name_error_eq_none_iff hgrammatical hbelow hdefinition arrival.enclosing
  unfold Definition.innerNamespace Definition.unreservedNamespace
  cases haccepted : definition.nameError? with
  | none => rw [if_neg (haccepted_iff.1 haccepted)]; rfl
  | some cause =>
      have hreserved : Name.isReserved (definition.resolve arrival.enclosing).short := by
        by_contra hunreserved
        simp [haccepted_iff.2 hunreserved] at haccepted
      rw [if_pos hreserved]
      rfl

/-- No mismatch of fullnames is reported if and only if no type is misnamed where it is entered. -/
theorem count_fullname_mismatch_eq_zero_iff (trace : Bool) (root : Schema) :
    (root.verify ⟨trace, false⟩).count .fullnameMismatch = 0 ↔
      ∀ arrival ∈ root.arrivals Definition.innerNamespace, ¬ arrival.isMisnamed := by
  have hcounted : ((root.arrivals Definition.innerNamespace).map fun arrival =>
      arrival.tally .fullnameMismatch).sum =
        (root.arrivals Definition.innerNamespace).countP Arrival.isMisnamed :=
    sum_map_countp_singleton Arrival.isMisnamed _
  rw [count_verify_of_ne trace root .fullnameMismatch (by decide), hcounted, List.countP_eq_zero]

/-- The walk through an unshared schema arrives at whatever is reached. -/
theorem Unshared.mem_arrivals_iff (hunshared : root.Unshared) :
    ⟨type, other⟩ ∈ root.arrivals second ↔
      ∃ enclosing, root.ReachedUnder first second type enclosing other := by
  rw [hunshared.arrivals_eq_unfold]
  constructor
  · intro h
    refine exists_reached_under ?_ _ h
    intro arrival hroot
    cases List.mem_singleton.1 hroot
    exact ⟨"", .root⟩
  · rintro ⟨enclosing, hreached⟩
    exact hreached.symm.mem_unfold

/-- A definition is misnamed where it is entered if and only if its name is not reserved and
resolves to another fullname there than where it is declared. -/
theorem Declared.is_misnamed_iff (hdeclared : root.Declared) (hgrammatical : root.Grammatical)
    (hreached : root.ReachedUnder Definition.ownNamespace second type enclosing other)
    {definition : Definition} (hdefinition : type.definition? = some definition) :
    Arrival.isMisnamed ⟨type, other⟩ ↔
      ¬ Name.isReserved (definition.resolve enclosing).short ∧
        (definition.resolve other).fullname ≠ (definition.resolve enclosing).fullname := by
  rw [Arrival.is_misnamed_iff]
  show type.isNamed ∧ type.nameError? = none ∧
    type.fullname ≠ (type.resolve other).fullname ↔ _
  rw [name_error_of_definition hdefinition, fullname_of_definition hdefinition,
    resolve_of_definition hdefinition, hdeclared.fullname_eq hreached hdefinition,
    hdeclared.name_error_eq_none_iff hgrammatical hreached.reaches hdefinition enclosing, ne_comm]
  exact and_iff_right (is_named_of_definition hdefinition)

/-- Where no record has a reserved name, both ways of handing down namespaces are the same. -/
theorem ReachedUnder.eq_of_unreserved
    (hunreserved : ∀ node definition fields, root.Reaches (.record node definition fields) →
      ¬ Name.isReserved (definition.resolve "").short)
    (h : root.ReachedUnder Definition.ownNamespace Definition.unreservedNamespace type enclosing
      other) : enclosing = other := by
  induction h with
  | root => rfl
  | child outer inner enclosing other hreached hchild ih =>
      subst ih
      cases outer with
      | record node definition fields =>
          have hcounts : ¬ Name.isReserved (definition.resolve enclosing).short := by
            rw [Definition.resolve, QualifiedName.short_resolve _ _ _ ""]
            exact hunreserved node definition fields hreached.reaches
          exact (if_neg hcounts).symm
      | enum | fixed | primitive => simp [children] at hchild
      | array | map | union => rfl

/-- A verification of a whole schema whose definitions have grammatical names and are declared in
the namespaces of the definitions around them reports no mismatch of fullnames if and only if every
definition with an unreserved name resolves to the same fullname whether or not the definitions
around it with reserved names count. So it reports none if no record has a reserved name. -/
theorem Unshared.count_fullname_mismatch_iff (hunshared : root.Unshared)
    (hgrammatical : root.Grammatical) (hdeclared : root.Declared) (trace : Bool) :
    ((root.verify ⟨trace, false⟩).count .fullnameMismatch = 0 ↔
      ∀ type enclosing other, root.ReachedUnder Definition.ownNamespace
        Definition.unreservedNamespace type enclosing other →
          ∀ definition, type.definition? = some definition →
            ¬ Name.isReserved (definition.resolve enclosing).short →
              (definition.resolve other).fullname = (definition.resolve enclosing).fullname) ∧
    ((∀ node definition fields, root.Reaches (.record node definition fields) →
      ¬ Name.isReserved (definition.resolve "").short) →
        (root.verify ⟨trace, false⟩).count .fullnameMismatch = 0) := by
  have hexactly : (root.verify ⟨trace, false⟩).count .fullnameMismatch = 0 ↔
      ∀ type enclosing other, root.ReachedUnder Definition.ownNamespace
        Definition.unreservedNamespace type enclosing other →
          ∀ definition, type.definition? = some definition →
            ¬ Name.isReserved (definition.resolve enclosing).short →
              (definition.resolve other).fullname = (definition.resolve enclosing).fullname := by
    rw [count_fullname_mismatch_eq_zero_iff, hdeclared.arrivals_inner_namespace hgrammatical]
    constructor
    · intro hnone type enclosing other hreached definition hdefinition hunreserved
      by_contra hdiffers
      refine hnone _ (hunshared.mem_arrivals_iff.2 ⟨enclosing, hreached⟩) ?_
      exact (hdeclared.is_misnamed_iff hgrammatical hreached hdefinition).2 ⟨hunreserved, hdiffers⟩
    · intro hsame arrival harrival hmisnamed
      obtain ⟨enclosing, hreached⟩ := hunshared.mem_arrivals_iff.1 harrival
      obtain ⟨definition, hdefinition⟩ :=
        Option.isSome_iff_exists.1 (Arrival.is_misnamed_iff.1 hmisnamed).1
      obtain ⟨hunreserved, hdiffers⟩ :=
        (hdeclared.is_misnamed_iff hgrammatical hreached hdefinition).1 hmisnamed
      exact hdiffers (hsame _ _ _ hreached definition hdefinition hunreserved)
  refine ⟨hexactly, ?_⟩
  intro hunreserved
  rw [hexactly]
  intro type enclosing other hreached definition _ _
  rw [hreached.eq_of_unreserved hunreserved]

/-- A record with a fixed that has a reserved name and one that has none. -/
def crate : Schema :=
  .record 0 (.declare "Crate" "geo" "" .unknown)
    [⟨"weight", some (.fixed 2 (.declare "long" "" "geo" .unknown) 8)⟩, ⟨"place", some point⟩]

/-- In the crate, no mismatch of fullnames is reported, although one definition is refused. -/
theorem count_fullname_mismatch_crate : crate.Unshared ∧ crate.Grammatical ∧ crate.Declared ∧
    (crate.verify ⟨false, false⟩).count .fullnameMismatch = 0 := by
  have hown : Definition.ownNamespace (.declare "Crate" "geo" "" .unknown) "" = "geo" := by decide
  have hunfolded : Arrival.unfold Definition.ownNamespace [⟨crate, ""⟩] =
      [⟨crate, ""⟩, ⟨.fixed 2 (.declare "long" "" "geo" .unknown) 8, "geo"⟩, ⟨point, "geo"⟩] := by
    simp [crate, point, Arrival.unfold, Arrival.next, children, Arrival.handedDown, definition?,
      hown]
  have hlisted : ∀ type, crate.Reaches type →
      type ∈ [crate, .fixed 2 (.declare "long" "" "geo" .unknown) 8, point] := by
    intro type hbelow
    refine hbelow.mem_of_closed List.mem_cons_self ?_
    simp [crate, point, children]
  have hunshared : crate.Unshared := by
    rw [← Arrival.nodup_named_nodes_unfold_iff, hunfolded]
    decide
  have hgrammatical : crate.Grammatical := by
    intro type definition hbelow hdefinition
    have hknown := hlisted type hbelow
    simp only [List.mem_cons, List.not_mem_nil, or_false] at hknown
    rcases hknown with rfl | rfl | rfl
    · cases hdefinition
      exact ⟨by decide, .inr (by decide)⟩
    · cases hdefinition
      exact ⟨by decide, .inl rfl⟩
    · cases hdefinition
      exact ⟨by decide, .inl rfl⟩
  have hdeclared : crate.Declared := by
    rw [Declared, hunfolded]
    simp only [List.forall_mem_cons]
    refine ⟨?_, ?_, ?_, List.forall_mem_nil _⟩
    all_goals
      intro definition hdefinition
      cases hdefinition
      decide
  refine ⟨hunshared, hgrammatical, hdeclared, ?_⟩
  refine (hunshared.count_fullname_mismatch_iff hgrammatical hdeclared false).2 ?_
  intro node definition fields hbelow
  have hknown := hlisted _ hbelow
  simp only [List.mem_cons, List.not_mem_nil, or_false, crate, point, reduceCtorEq] at hknown
  cases hknown
  decide

/-- A record with a reserved name that stands in a namespace, and a fixed declared inside it. -/
def boxed : Schema :=
  .record 0 (.declare "a.int" "" "" .unknown)
    [⟨"x", some (.fixed 1 (.declare "X" "" "a" .unknown) 4)⟩]

/-- Inside a record with a reserved name, a mismatch is reported for a definition that is declared
in the namespace of the record. -/
theorem count_fullname_mismatch_boxed : boxed.Unshared ∧ boxed.Grammatical ∧ boxed.Declared ∧
    (boxed.verify ⟨false, false⟩).count .fullnameMismatch = 1 := by
  have hown : Definition.ownNamespace (.declare "a.int" "" "" .unknown) "" = "a" := by decide
  have hunfolded : Arrival.unfold Definition.ownNamespace [⟨boxed, ""⟩] =
      [⟨boxed, ""⟩, ⟨.fixed 1 (.declare "X" "" "a" .unknown) 4, "a"⟩] := by
    simp [boxed, Arrival.unfold, Arrival.next, children, Arrival.handedDown, definition?, hown]
  refine ⟨?_, ?_, ?_, ?_⟩
  · rw [← Arrival.nodup_named_nodes_unfold_iff, hunfolded]
    decide
  · intro type definition hbelow hdefinition
    have hknown : type ∈ [boxed, .fixed 1 (.declare "X" "" "a" .unknown) 4] := by
      refine hbelow.mem_of_closed List.mem_cons_self ?_
      simp [boxed, children]
    simp only [List.mem_cons, List.not_mem_nil, or_false] at hknown
    rcases hknown with rfl | rfl
    · cases hdefinition
      exact ⟨by decide, .inl rfl⟩
    · cases hdefinition
      exact ⟨by decide, .inl rfl⟩
  · rw [Declared, hunfolded]
    simp only [List.forall_mem_cons]
    refine ⟨?_, ?_, List.forall_mem_nil _⟩
    all_goals
      intro definition hdefinition
      cases hdefinition
      decide
  · rw [count_verify]
    decide

end Schema

end AvroSchema
