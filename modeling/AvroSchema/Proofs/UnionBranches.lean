import AvroSchema.Proofs.Acceptance
import AvroSchema.Proofs.DottedNames
import AvroSchema.Proofs.FailureCounts

/-!
# Branches of a union that are told apart

The key of a named branch is the fullname that the branch resolves to in the namespace that its
union is reached with. A named type that is shared may have been entered with another namespace, and
then it is not the fullname recorded for the type. The main statement says what a report on two
branches with the same key amounts to in a schema with sound names: the branches are one named type,
or unnamed types with one token, or different named types that the union is reached with the wrong
namespace for (`Coherent.count_duplicate_branch_iff`).
-/

namespace AvroSchema

/-- No reserved name contains a dot. -/
theorem Name.dot_not_mem_of_is_reserved {text : String} (h : isReserved text) :
    '.' ∉ text.toList := by
  have hlisted : ∀ token ∈ primitiveTokens ++ containerTokens, '.' ∉ token.toList := by decide
  exact hlisted text (List.contains_iff_mem.1 h)

/-- The fullname that a definition with acceptable names resolves to is not reserved. -/
theorem Definition.not_is_reserved_fullname {definition : Definition}
    (haccepted : definition.nameError? = none) (enclosing : String) :
    ¬ Name.isReserved (definition.resolve enclosing).fullname := by
  intro hreserved
  obtain ⟨-, -, -, hunreserved⟩ := (definition.name_error_eq_none_iff enclosing).1 haccepted
  unfold QualifiedName.fullname at hreserved
  split at hreserved
  · exact hunreserved hreserved
  · exact Name.dot_not_mem_of_is_reserved hreserved (by simp)

namespace Schema

variable {root first second : Schema} {enclosing : String}

/-- A type that may be told apart from others: its names are acceptable if it is named, and its
token is a primitive one if it is primitive. -/
def Proper (type : Schema) : Prop :=
  type.nameError? = none ∧ type.hasUnknownToken = false

/-- A proper type without a name that is no union has a reserved name as its token. -/
theorem Proper.is_reserved_name {type : Schema} (hproper : type.Proper)
    (hunnamed : type.isNamed = false) (hnotUnion : type.kind ≠ .union) :
    Name.isReserved type.name := by
  cases type with
  | primitive node token =>
      have hknown : Name.isPrimitive token := by simpa [hasUnknownToken] using hproper.2
      exact List.contains_iff_mem.2 (List.mem_append_left _ (List.contains_iff_mem.1 hknown))
  | array =>
      show Name.isReserved Kind.array.label
      decide
  | map =>
      show Name.isReserved Kind.map.label
      decide
  | union => exact absurd rfl hnotUnion
  | record | enum | fixed => cases hunnamed

/-- The key of a named type is the fullname that it resolves to. -/
theorem branch_key_of_named {type : Schema} (hnamed : type.isNamed) (enclosing : String) :
    type.branchKey enclosing = (type.resolve enclosing).fullname :=
  if_pos hnamed

/-- The key of any other type is its token. -/
theorem branch_key_of_unnamed {type : Schema} (hunnamed : type.isNamed = false)
    (enclosing : String) :
    type.branchKey enclosing = type.name :=
  if_neg (by simp [hunnamed])

/-- The key of a proper named type is not reserved. -/
theorem Proper.not_is_reserved_branch_key {type : Schema} (hproper : type.Proper)
    (hnamed : type.isNamed) (enclosing : String) :
    ¬ Name.isReserved (type.branchKey enclosing) := by
  obtain ⟨definition, hdefinition⟩ := Option.isSome_iff_exists.1 hnamed
  rw [branch_key_of_named hnamed, resolve_of_definition hdefinition]
  refine definition.not_is_reserved_fullname ?_ enclosing
  rw [← name_error_of_definition hdefinition]
  exact hproper.1

/-- Two proper types have the same key if and only if both are named and resolve to the same
fullname, or none is and both have the same token. -/
theorem Proper.branch_key_eq_iff (hfirstProper : first.Proper) (hsecondProper : second.Proper)
    (hfirstKind : first.kind ≠ .union) (hsecondKind : second.kind ≠ .union) (enclosing : String) :
    first.branchKey enclosing = second.branchKey enclosing ↔
      (first.isNamed ∧ second.isNamed ∧
        (first.resolve enclosing).fullname = (second.resolve enclosing).fullname) ∨
      (first.isNamed = false ∧ second.isNamed = false ∧ first.name = second.name) := by
  cases hfirstNamed : first.isNamed with
  | true =>
      have hunreserved := hfirstProper.not_is_reserved_branch_key hfirstNamed enclosing
      cases hsecondNamed : second.isNamed with
      | true => simp [branch_key_of_named hfirstNamed, branch_key_of_named hsecondNamed]
      | false =>
          have hreserved := hsecondProper.is_reserved_name hsecondNamed hsecondKind
          rw [← branch_key_of_unnamed hsecondNamed enclosing] at hreserved
          have hdiffer : first.branchKey enclosing ≠ second.branchKey enclosing :=
            fun hsame => hunreserved (hsame ▸ hreserved)
          simp [hdiffer]
  | false =>
      have hreserved := hfirstProper.is_reserved_name hfirstNamed hfirstKind
      rw [← branch_key_of_unnamed hfirstNamed enclosing] at hreserved
      cases hsecondNamed : second.isNamed with
      | true =>
          have hunreserved := hsecondProper.not_is_reserved_branch_key hsecondNamed enclosing
          have hdiffer : first.branchKey enclosing ≠ second.branchKey enclosing :=
            fun hsame => hunreserved (hsame ▸ hreserved)
          simp [hdiffer]
      | false => simp [branch_key_of_unnamed hfirstNamed, branch_key_of_unnamed hsecondNamed]

/-- The keys of the branches of a union differ if and only if any two branches that are no unions
have different keys. -/
theorem nodup_branch_keys_iff (node : NodeId) (branches : List (Option Schema)) :
    ((Schema.union node branches).branchKeys enclosing).Nodup ↔
      ∀ first second, [some first, some second].Sublist branches → first.kind ≠ .union →
        second.kind ≠ .union → first.branchKey enclosing ≠ second.branchKey enclosing := by
  rw [branchKeys, children, List.Nodup, List.pairwise_map, List.pairwise_filter,
    List.pairwise_filterMap, List.pairwise_iff_forall_sublist]
  constructor
  · intro hdistinct first second hlisted hfirstKind hsecondKind
    exact hdistinct hlisted first rfl second rfl (by simpa using hfirstKind)
      (by simpa using hsecondKind)
  · intro hdistinct one other hlisted first hfirst second hsecond hfirstKind hsecondKind
    obtain rfl : one = some first := hfirst
    obtain rfl : other = some second := hsecond
    exact hdistinct first second hlisted (by simpa using hfirstKind) (by simpa using hsecondKind)

/-- Some union below a root lists a named type twice. -/
def RepeatsNamed (root : Schema) : Prop :=
  ∃ node branches first second, root.Reaches (.union node branches) ∧
    [some first, some second].Sublist branches ∧ first.isNamed ∧ second.isNamed ∧
      first.node = second.node

/-- Some union below a root lists two types with the same token that are neither named nor unions.
-/
def RepeatsUnnamed (root : Schema) : Prop :=
  ∃ node branches first second, root.Reaches (.union node branches) ∧
    [some first, some second].Sublist branches ∧ first.isNamed = false ∧ second.isNamed = false ∧
      first.kind ≠ .union ∧ second.kind ≠ .union ∧ first.name = second.name

/-- Some union below a root is reached with a namespace in which two different named types that it
lists resolve to the same fullname. -/
def ConfusesNamed (root : Schema) : Prop :=
  ∃ node branches enclosing first second,
    ⟨.union node branches, enclosing⟩ ∈ root.arrivals Definition.innerNamespace ∧
      [some first, some second].Sublist branches ∧ first.isNamed ∧ second.isNamed ∧
        first.node ≠ second.node ∧
          (first.resolve enclosing).fullname = (second.resolve enclosing).fullname

/-- With whatever namespace a union below a root is reached, the named types that it lists resolve
to the fullnames recorded for them. -/
def BranchesSettled (root : Schema) : Prop :=
  ∀ node branches enclosing type,
    ⟨.union node branches, enclosing⟩ ∈ root.arrivals Definition.innerNamespace →
      some type ∈ branches → type.isNamed → (type.resolve enclosing).fullname = type.fullname

/-- A branch of a union is one of its children. -/
theorem mem_children_union {node : NodeId} {branches : List (Option Schema)} {type : Schema}
    (h : some type ∈ branches) : type ∈ (union node branches).children :=
  List.mem_filterMap.2 ⟨some type, h, rfl⟩

/-- There are more keys than different ones if and only if a key is repeated. -/
theorem surplus_pos_iff (keys : List String) : 0 < surplus keys ↔ ¬ keys.Nodup := by
  have hcounted : (repeats id [] keys).length = surplus (keys.map id) := length_repeats keys
  have hrepeated : repeats id [] keys = [] ↔ keys.Nodup := by simp [repeats_eq_nil_iff]
  rw [List.map_id] at hcounted
  rw [← hcounted, List.length_pos_iff, Ne, hrepeated]

/-- A duplicate branch is reported if and only if a union is reached with a namespace in which two
branches that are no unions have the same key. -/
theorem count_duplicate_branch_pos_iff (trace : Bool) (root : Schema) :
    0 < (root.verify ⟨trace, false⟩).count .duplicateBranch ↔
      ∃ node branches enclosing first second,
        ⟨.union node branches, enclosing⟩ ∈ root.arrivals Definition.innerNamespace ∧
          [some first, some second].Sublist branches ∧ first.kind ≠ .union ∧
            second.kind ≠ .union ∧ first.branchKey enclosing = second.branchKey enclosing := by
  rw [count_verify_of_ne trace root .duplicateBranch (by decide), Nat.pos_iff_ne_zero, Ne,
    List.sum_eq_zero_iff, List.forall_mem_map]
  constructor
  · intro hrepeated
    push Not at hrepeated
    obtain ⟨⟨type, enclosing⟩, harrival, hsurplus⟩ := hrepeated
    have hnotNodup := (surplus_pos_iff _).1 (Nat.pos_of_ne_zero hsurplus)
    cases type with
    | union node branches =>
        rw [nodup_branch_keys_iff] at hnotNodup
        push Not at hnotNodup
        obtain ⟨first, second, hlisted, hfirstKind, hsecondKind, hsame⟩ := hnotNodup
        exact ⟨node, branches, enclosing, first, second, harrival, hlisted, hfirstKind, hsecondKind,
          hsame⟩
    | primitive | record | enum | fixed | array | map => exact absurd List.nodup_nil hnotNodup
  · rintro ⟨node, branches, enclosing, first, second, harrival, hlisted, hfirstKind, hsecondKind,
      hsame⟩ hnone
    have hnotNodup : ¬ ((Schema.union node branches).branchKeys enclosing).Nodup := by
      rw [nodup_branch_keys_iff]
      intro hdistinct
      exact hdistinct first second hlisted hfirstKind hsecondKind hsame
    exact absurd (hnone _ harrival) (Nat.ne_of_gt ((surplus_pos_iff _).2 hnotNodup))

/-- A named type is no union. -/
theorem kind_ne_union_of_named {type : Schema} (hnamed : type.isNamed) : type.kind ≠ .union := by
  cases type with
  | union => cases hnamed
  | _ => nofun

/-- In a coherent schema of proper types, duplicate branches are reported if and only if a union
lists a named type twice or two unnamed types with one token, or is reached with a namespace in
which two different named types that it lists resolve to one fullname. -/
theorem Coherent.count_duplicate_branch_pos_iff_of_proper (hcoherent : root.Coherent)
    (hproper : ∀ type, root.Reaches type → type.Proper) (trace : Bool) :
    0 < (root.verify ⟨trace, false⟩).count .duplicateBranch ↔
      root.RepeatsNamed ∨ root.RepeatsUnnamed ∨ root.ConfusesNamed := by
  have hbranchBelow : ∀ {node branches type}, root.Reaches (.union node branches) →
      some type ∈ branches → root.Reaches type :=
    fun hbelow hbranch => .child _ _ hbelow (mem_children_union hbranch)
  rw [count_duplicate_branch_pos_iff]
  constructor
  · rintro ⟨node, branches, enclosing, first, second, harrival, hlisted, hfirstKind, hsecondKind,
      hsame⟩
    have hbelow := reaches_of_mem_arrivals harrival
    have hfirstProper := hproper first (hbranchBelow hbelow (hlisted.subset List.mem_cons_self))
    have hsecondProper :=
      hproper second (hbranchBelow hbelow (hlisted.subset (.tail _ List.mem_cons_self)))
    rcases (hfirstProper.branch_key_eq_iff hsecondProper hfirstKind hsecondKind enclosing).1
        hsame with
      ⟨hfirstNamed, hsecondNamed, hsame⟩ | ⟨hfirstUnnamed, hsecondUnnamed, hsame⟩
    · by_cases hsameNode : first.node = second.node
      · exact .inl ⟨node, branches, first, second, hbelow, hlisted, hfirstNamed, hsecondNamed,
          hsameNode⟩
      · exact .inr (.inr ⟨node, branches, enclosing, first, second, harrival, hlisted, hfirstNamed,
          hsecondNamed, hsameNode, hsame⟩)
    · exact .inr (.inl ⟨node, branches, first, second, hbelow, hlisted, hfirstUnnamed,
        hsecondUnnamed, hfirstKind, hsecondKind, hsame⟩)
  · rintro (⟨node, branches, first, second, hbelow, hlisted, hfirstNamed, hsecondNamed, hsameNode⟩ |
      ⟨node, branches, first, second, hbelow, hlisted, hfirstUnnamed, hsecondUnnamed, hfirstKind,
        hsecondKind, hsame⟩ |
      ⟨node, branches, enclosing, first, second, harrival, hlisted, hfirstNamed, hsecondNamed, -,
        hsame⟩)
    · -- A node has one content, so the two branches are the same type.
      obtain rfl := hcoherent first second
        (hbranchBelow hbelow (hlisted.subset List.mem_cons_self))
        (hbranchBelow hbelow (hlisted.subset (.tail _ List.mem_cons_self)))
        hfirstNamed hsecondNamed hsameNode
      obtain ⟨⟨_, enclosing⟩, harrival, rfl⟩ := hcoherent.exists_arrival_of_reaches hbelow
      have hkind := kind_ne_union_of_named hfirstNamed
      exact ⟨node, branches, enclosing, first, first, harrival, hlisted, hkind, hkind, rfl⟩
    · obtain ⟨⟨_, enclosing⟩, harrival, rfl⟩ := hcoherent.exists_arrival_of_reaches hbelow
      refine ⟨node, branches, enclosing, first, second, harrival, hlisted, hfirstKind, hsecondKind,
        ?_⟩
      rw [branch_key_of_unnamed hfirstUnnamed, branch_key_of_unnamed hsecondUnnamed, hsame]
    · refine ⟨node, branches, enclosing, first, second, harrival, hlisted,
        kind_ne_union_of_named hfirstNamed, kind_ne_union_of_named hsecondNamed, ?_⟩
      rw [branch_key_of_named hfirstNamed, branch_key_of_named hsecondNamed, hsame]

/-- Where named branches resolve to the fullnames recorded for them and different definitions have
different fullnames, no named types are confused. -/
theorem BranchesSettled.not_confuses_named (hsettled : root.BranchesSettled)
    (hdistinct : ∀ first ∈ root.definitions, ∀ second ∈ root.definitions,
      first.node ≠ second.node → first.fullname ≠ second.fullname) : ¬ root.ConfusesNamed := by
  rintro ⟨node, branches, enclosing, first, second, harrival, hlisted, hfirstNamed, hsecondNamed,
    hdiffer, hsame⟩
  have hbelow := reaches_of_mem_arrivals harrival
  have hfirstListed := hlisted.subset List.mem_cons_self
  have hsecondListed := hlisted.subset (.tail _ List.mem_cons_self)
  rw [hsettled node branches enclosing first harrival hfirstListed hfirstNamed,
    hsettled node branches enclosing second harrival hsecondListed hsecondNamed] at hsame
  exact hdistinct first ⟨.child _ _ hbelow (mem_children_union hfirstListed), hfirstNamed⟩
    second ⟨.child _ _ hbelow (mem_children_union hsecondListed), hsecondNamed⟩ hdiffer hsame

/-- In a coherent schema with primitive tokens and sound names, every type is proper. -/
theorem Coherent.proper_of_names_sound (hcoherent : root.Coherent)
    (hprimitives : ∀ node token, root.Reaches (.primitive node token) → Name.isPrimitive token)
    (hsound : root.NamesSound Definition.innerNamespace) {type : Schema}
    (hbelow : root.Reaches type) : type.Proper := by
  refine ⟨?_, ?_⟩
  · cases hdefinition : type.definition? with
    | none => rw [nameError?, hdefinition, Option.bind_none]
    | some definition =>
        obtain ⟨arrival, harrival, rfl⟩ := hcoherent.exists_arrival_of_reaches hbelow
        rw [name_error_of_definition hdefinition]
        exact (hsound arrival harrival definition hdefinition).1
  · cases type with
    | primitive node token => simp [hasUnknownToken, hprimitives node token hbelow]
    | _ => rfl

/-- In a schema with primitive tokens and sound names that are all different, a verification of the
whole reports duplicate branches if and only if some union lists a named type twice or two unnamed
types with the same token, or is reached with a namespace in which two different named types that it
lists resolve to the same fullname. The last is never so where unions are only reached with
namespaces in which the named types that they list resolve to the fullnames recorded for them. -/
theorem Coherent.count_duplicate_branch_iff (hcoherent : root.Coherent)
    (hprimitives : ∀ node token, root.Reaches (.primitive node token) → Name.isPrimitive token)
    (hsound : root.NamesSound Definition.innerNamespace)
    (hdistinct : ∀ first ∈ root.definitions, ∀ second ∈ root.definitions,
      first.node ≠ second.node → first.fullname ≠ second.fullname) (trace : Bool) :
    (0 < (root.verify ⟨trace, false⟩).count .duplicateBranch ↔
      root.RepeatsNamed ∨ root.RepeatsUnnamed ∨ root.ConfusesNamed) ∧
    (root.BranchesSettled → (0 < (root.verify ⟨trace, false⟩).count .duplicateBranch ↔
      root.RepeatsNamed ∨ root.RepeatsUnnamed)) := by
  have hexactly := hcoherent.count_duplicate_branch_pos_iff_of_proper
    (fun _ hbelow => hcoherent.proper_of_names_sound hprimitives hsound hbelow) trace
  refine ⟨hexactly, ?_⟩
  intro hsettled
  rw [hexactly]
  simp only [hsettled.not_confuses_named hdistinct, or_false]

/-- Different definitions have different fullnames if the root belongs to some types that include
all their children and of which no two named ones have the same fullname. -/
theorem fullname_ne_of_closed {types : List Schema} (hroot : root ∈ types)
    (hclosed : ∀ type ∈ types, ∀ child ∈ type.children, child ∈ types)
    (hdistinct : ((types.filter isNamed).map fullname).Nodup) :
    ∀ first ∈ root.definitions, ∀ second ∈ root.definitions,
      first.node ≠ second.node → first.fullname ≠ second.fullname := by
  intro first hfirst second hsecond hdiffer hsame
  have hfirstListed : first ∈ types.filter isNamed :=
    List.mem_filter.2 ⟨hfirst.1.mem_of_closed hroot hclosed, hfirst.2⟩
  have hsecondListed : second ∈ types.filter isNamed :=
    List.mem_filter.2 ⟨hsecond.1.mem_of_closed hroot hclosed, hsecond.2⟩
  exact hdiffer
    (congrArg node (List.inj_on_of_nodup_map hdistinct hfirstListed hsecondListed hsame))

/-- A fixed that declares a namespace of its own. -/
def token : Schema :=
  .fixed 1 (.declare "Token" "auth" "" .unknown) 16

/-- A union that lists one fixed twice. -/
def echo : Schema :=
  .union 0 [some token, some (.primitive 2 "null"), some token]

/-- The fixed that is listed twice is reported as a duplicate branch. -/
theorem count_duplicate_branch_echo : echo.Coherent ∧
    (∀ node token, echo.Reaches (.primitive node token) → Name.isPrimitive token) ∧
    echo.NamesSound Definition.innerNamespace ∧
    (∀ first ∈ echo.definitions, ∀ second ∈ echo.definitions,
      first.node ≠ second.node → first.fullname ≠ second.fullname) ∧
    echo.BranchesSettled ∧ 0 < (echo.verify ⟨false, false⟩).count .duplicateBranch := by
  have harrivals : echo.arrivals Definition.innerNamespace =
      [⟨echo, ""⟩, ⟨token, ""⟩, ⟨.primitive 2 "null", ""⟩] := by
    simp [echo, token, Schema.arrivals, Arrival.walk, Arrival.next, children, Arrival.handedDown,
      definition?, isNamed, enter, node]
  have hclosed : ∀ type ∈ [echo, token, .primitive 2 "null"], ∀ child ∈ type.children,
      child ∈ [echo, token, .primitive 2 "null"] := by
    simp [echo, token, children]
  have hcoherent : echo.Coherent := .of_closed List.mem_cons_self hclosed (by decide)
  have hprimitives : ∀ node token, echo.Reaches (.primitive node token) →
      Name.isPrimitive token := by
    intro node name hbelow
    have hlisted := hbelow.mem_of_closed List.mem_cons_self hclosed
    simp only [echo, token, List.mem_cons, List.not_mem_nil, or_false, reduceCtorEq, false_or]
      at hlisted
    cases hlisted
    decide
  have hsound : echo.NamesSound Definition.innerNamespace := by
    rw [NamesSound, harrivals]
    simp only [List.forall_mem_cons]
    refine ⟨?_, ?_, ?_, List.forall_mem_nil _⟩
    all_goals
      intro definition hdefinition
      cases hdefinition
    -- Of the three types only the fixed has a definition.
    decide
  have hdistinct := fullname_ne_of_closed List.mem_cons_self hclosed (by decide)
  have hsettled : echo.BranchesSettled := by
    intro node branches enclosing type harrival hlisted hnamed
    rw [harrivals] at harrival
    simp only [echo, token, List.mem_cons, Arrival.mk.injEq, List.not_mem_nil, or_false,
      reduceCtorEq, false_and] at harrival
    obtain ⟨hsame, rfl⟩ := harrival
    cases hsame
    simp only [List.mem_cons, List.not_mem_nil, or_false, Option.some.injEq] at hlisted
    rcases hlisted with rfl | rfl | rfl
    · decide
    · cases hnamed
    · decide
  refine ⟨hcoherent, hprimitives, hsound, hdistinct, hsettled, ?_⟩
  refine ((hcoherent.count_duplicate_branch_iff hprimitives hsound hdistinct false).2 hsettled).2 ?_
  have htwice : [some token, some token].Sublist
      [some token, some (.primitive 2 "null"), some token] :=
    .cons_cons _ (.cons _ (.cons_cons _ .slnil))
  exact .inl ⟨0, _, token, token, .root, htwice, rfl, rfl, rfl⟩

/-- A fixed that takes its namespace from the record that it is declared in. -/
def plainStamp : Schema :=
  .fixed 1 (.declare "Stamp" "" "ledger" .unknown) 8

/-- A fixed of the same name in another namespace. -/
def postStamp : Schema :=
  .fixed 2 (.declare "Stamp" "post" "" .unknown) 8

/-- A record inside another namespace with a union of both fixeds. -/
def parcel : Schema :=
  .record 3 (.declare "Parcel" "post" "" .unknown)
    [⟨"stamp", some (.union 4 [some plainStamp, some postStamp])⟩]

/-- A record that uses one of the fixeds before the union lists it. -/
def ledger : Schema :=
  .record 0 (.declare "Ledger" "ledger" "" .unknown)
    [⟨"stamp", some plainStamp⟩, ⟨"parcel", some parcel⟩]

/-- Two different named types with different fullnames are reported as duplicate branches, since the
union that lists them is reached with the namespace of the second, and nothing else is wrong. -/
theorem count_duplicate_branch_ledger : ledger.Coherent ∧
    (∀ node token, ledger.Reaches (.primitive node token) → Name.isPrimitive token) ∧
    ledger.NamesSound Definition.innerNamespace ∧
    (∀ first ∈ ledger.definitions, ∀ second ∈ ledger.definitions,
      first.node ≠ second.node → first.fullname ≠ second.fullname) ∧
    ¬ ledger.RepeatsNamed ∧ ¬ ledger.RepeatsUnnamed ∧
      (ledger.verify ⟨false, false⟩).count .duplicateBranch = 1 := by
  have hinLedger : Definition.innerNamespace (.declare "Ledger" "ledger" "" .unknown) "" =
      "ledger" := by decide
  have hinPost : Definition.innerNamespace (.declare "Parcel" "post" "" .unknown) "ledger" =
      "post" := by decide
  have harrivals : ledger.arrivals Definition.innerNamespace =
      [⟨ledger, ""⟩, ⟨plainStamp, "ledger"⟩, ⟨parcel, "ledger"⟩,
        ⟨.union 4 [some plainStamp, some postStamp], "post"⟩, ⟨postStamp, "post"⟩] := by
    simp [ledger, parcel, plainStamp, postStamp, Schema.arrivals, Arrival.walk, Arrival.next,
      children, Arrival.handedDown, definition?, isNamed, enter, node, hinLedger, hinPost]
  have hclosed : ∀ type ∈ [ledger, plainStamp, parcel, .union 4 [some plainStamp, some postStamp],
      postStamp], ∀ child ∈ type.children, child ∈ [ledger, plainStamp, parcel,
        .union 4 [some plainStamp, some postStamp], postStamp] := by
    simp [ledger, parcel, plainStamp, postStamp, children]
  have htheUnion : ∀ node branches, ledger.Reaches (.union node branches) →
      branches = [some plainStamp, some postStamp] := by
    intro node branches hbelow
    have hlisted := hbelow.mem_of_closed List.mem_cons_self hclosed
    simp only [ledger, plainStamp, parcel, postStamp, List.mem_cons, List.not_mem_nil, or_false,
      reduceCtorEq, false_or] at hlisted
    cases hlisted
    rfl
  refine ⟨.of_closed List.mem_cons_self hclosed (by decide), ?_, ?_,
    fullname_ne_of_closed List.mem_cons_self hclosed (by decide), ?_, ?_, ?_⟩
  · intro node name hbelow
    have hlisted := hbelow.mem_of_closed List.mem_cons_self hclosed
    simp [ledger, plainStamp, parcel, postStamp] at hlisted
  · rw [NamesSound, harrivals]
    simp only [List.forall_mem_cons]
    refine ⟨?_, ?_, ?_, ?_, ?_, List.forall_mem_nil _⟩
    all_goals
      intro definition hdefinition
      cases hdefinition
    all_goals decide
  · rintro ⟨node, branches, first, second, hbelow, hlisted, -, -, hsameNode⟩
    rw [htheUnion node branches hbelow] at hlisted
    cases hlisted.eq_of_length rfl
    revert hsameNode
    decide
  · rintro ⟨node, branches, first, second, hbelow, hlisted, hfirstUnnamed, -⟩
    rw [htheUnion node branches hbelow] at hlisted
    cases hlisted.eq_of_length rfl
    cases hfirstUnnamed
  · rw [count_verify]
    decide

end Schema

end AvroSchema
