import AvroSchema.Proofs.DefinedNames
import AvroSchema.Proofs.Unfolding

/-!
# The order of declarations

`Schema.Reordered` says that two schemas only differ in the order of the fields of records, of the
symbols of enums and of the branches of unions, at any depth. The order decides which of several
declarations counts as the duplicate, and with it the place of a diagnostic, but nothing more: the
main statement says that the reports on two such schemas have the same messages, lines of trace and
names, provided that no named node is shared (`Unshared.verify_reordered`).
-/

namespace AvroSchema

namespace Schema

/-- Two schemas that differ by putting fields, symbols or branches in another order, anywhere in
them and any number of times. -/
inductive Reordered : Schema → Schema → Prop where
  | refl (type : Schema) : Reordered type type
  | trans {first second third : Schema} : Reordered first second → Reordered second third →
      Reordered first third
  | fields {node : NodeId} {definition : Definition} {fields others : List Field} :
      fields.Perm others →
        Reordered (.record node definition fields) (.record node definition others)
  | symbols {node : NodeId} {definition : Definition} {symbols others : List String} :
      symbols.Perm others →
        Reordered (.enum node definition symbols) (.enum node definition others)
  | branches {node : NodeId} {branches others : List (Option Schema)} :
      branches.Perm others → Reordered (.union node branches) (.union node others)
  | inField {node : NodeId} {definition : Definition} {before after : List Field} {name : String}
      {type other : Schema} : Reordered type other →
        Reordered (.record node definition (before ++ ⟨name, some type⟩ :: after))
          (.record node definition (before ++ ⟨name, some other⟩ :: after))
  | inItems {node : NodeId} {type other : Schema} : Reordered type other →
      Reordered (.array node (some type)) (.array node (some other))
  | inValues {node : NodeId} {type other : Schema} : Reordered type other →
      Reordered (.map node (some type)) (.map node (some other))
  | inBranch {node : NodeId} {before after : List (Option Schema)} {type other : Schema} :
      Reordered type other →
        Reordered (.union node (before ++ some type :: after))
          (.union node (before ++ some other :: after))

/-- The child in a field comes after those in the fields before it. -/
theorem children_record_middle (node : NodeId) (definition : Definition) (before after : List Field)
    (name : String) (type : Schema) :
    (record node definition (before ++ ⟨name, some type⟩ :: after)).children =
      before.filterMap Field.type ++ type :: after.filterMap Field.type := by
  rw [children, List.filterMap_append]
  rfl

/-- The child in a branch comes after those in the branches before it. -/
theorem children_union_middle (node : NodeId) (before after : List (Option Schema))
    (type : Schema) :
    (union node (before ++ some type :: after)).children =
      before.filterMap id ++ type :: after.filterMap id := by
  rw [children, List.filterMap_append]
  rfl

namespace Reordered

variable {first second : Schema}

/-- Reordering leaves the node, the kind, the definition and the name of a type as they are. -/
theorem same (h : Reordered first second) : first.node = second.node ∧ first.kind = second.kind ∧
    first.definition? = second.definition? ∧ first.name = second.name := by
  induction h with
  | trans _ _ ih ihNext =>
      obtain ⟨hnode, hkind, hdefinition, hname⟩ := ih
      obtain ⟨hnodeNext, hkindNext, hdefinitionNext, hnameNext⟩ := ihNext
      exact ⟨hnode.trans hnodeNext, hkind.trans hkindNext, hdefinition.trans hdefinitionNext,
        hname.trans hnameNext⟩
  | refl | fields | symbols | branches | inField | inItems | inValues | inBranch =>
      exact ⟨rfl, rfl, rfl, rfl⟩

/-- Reordering leaves the key of a branch as it is. -/
theorem branch_key_eq (h : Reordered first second) (enclosing : String) :
    first.branchKey enclosing = second.branchKey enclosing := by
  obtain ⟨-, -, hdefinition, hname⟩ := h.same
  exact branch_key_congr hdefinition hname enclosing

/-- Reordering leaves the fullname that is asked for as it is. -/
theorem fullname_asked_eq (h : Reordered first second) (enclosing : String) :
    (Arrival.registration? ⟨first, enclosing⟩).map Registration.fullname =
      (Arrival.registration? ⟨second, enclosing⟩).map Registration.fullname := by
  obtain ⟨-, -, hdefinition, -⟩ := h.same
  unfold Arrival.registration?
  rw [show (⟨first, enclosing⟩ : Arrival).type.definition? = second.definition? from hdefinition]
  cases second.definition? with
  | none => rfl
  | some definition => cases haccepted : definition.nameError? <;> simp [haccepted]

/-- Reordering leaves the line of trace as it is. -/
theorem entry_eq (h : Reordered first second) (enclosing : String) :
    Arrival.entry? ⟨first, enclosing⟩ = Arrival.entry? ⟨second, enclosing⟩ := by
  obtain ⟨-, hkind, hdefinition, hname⟩ := h.same
  unfold Arrival.entry? Arrival.registration?
  rw [show (⟨first, enclosing⟩ : Arrival).type.definition? = second.definition? from hdefinition]
  cases hisDefinition : second.definition? with
  | none => rfl
  | some inner =>
      cases haccepted : inner.nameError? <;>
        simp [haccepted, TraceEntry.ofType, hkind, hname, ns, hdefinition]

end Reordered

end Schema

/-- What is wrong with names does not depend on their order. -/
theorem name_failures_perm (malformed duplicate : String → Failure) (earlier : List String)
    {names others : List String} (h : names.Perm others) :
    nameFailures malformed duplicate earlier names =
      nameFailures malformed duplicate earlier others := by
  have hsameMalformed := (h.filter fun name => !Name.isSimple name).map malformed
  have hsameDuplicates := (perm_repeats (earlier.filter Name.isSimple)
    (h.filter Name.isSimple)).map duplicate
  rw [nameFailures, nameFailures, Multiset.coe_eq_coe.2 hsameDuplicates]
  exact congrArg (· + _) (Multiset.coe_eq_coe.2 hsameMalformed)

namespace Schema.Reordered

/-- Reordering leaves what is wrong with a type, apart from its children, as it is. -/
theorem failures_eq {first second : Schema} (h : Reordered first second) (enclosing : String) :
    Arrival.failures ⟨first, enclosing⟩ = Arrival.failures ⟨second, enclosing⟩ := by
  induction h with
  | refl type => rfl
  | trans _ _ ih ihNext => exact ih.trans ihNext
  | fields hperm =>
      simp only [Arrival.failures, fieldNames, gaps]
      rw [name_failures_perm _ _ _ (hperm.map Field.name), hperm.countP_eq]
  | symbols hperm =>
      simp only [Arrival.failures, Schema.symbols]
      rw [name_failures_perm _ _ _ hperm]
  | branches hperm =>
      have hsameChildren := hperm.filterMap id
      have hsameKeys := (hsameChildren.filter fun branch => branch.kind ≠ .union).map fun branch =>
        branch.branchKey enclosing
      simp only [Arrival.failures, nestedUnions, branchKeys, children, gaps]
      rw [hsameChildren.countP_eq, hperm.countP_eq,
        Multiset.coe_eq_coe.2 ((perm_repeats [] hsameKeys).map Failure.duplicateBranch)]
  | inField hbelow _ => simp [Arrival.failures, fieldNames, gaps]
  | inItems | inValues => rfl
  | @inBranch node before after type other hbelow _ =>
      obtain ⟨-, hsameKind, -, -⟩ := hbelow.same
      have hnested : (union node (before ++ some type :: after)).nestedUnions =
          (union node (before ++ some other :: after)).nestedUnions := by
        simp only [nestedUnions, children_union_middle, List.countP_append, List.countP_cons,
          hsameKind]
      have hkeys : (union node (before ++ some type :: after)).branchKeys enclosing =
          (union node (before ++ some other :: after)).branchKeys enclosing := by
        simp only [branchKeys, children_union_middle, List.filter_append, List.map_append,
          List.filter_cons, hsameKind]
        split
        · rw [List.map_cons, List.map_cons, hbelow.branch_key_eq]
        · rfl
      have hmissing : (union node (before ++ some type :: after)).gaps =
          (union node (before ++ some other :: after)).gaps := by
        simp [gaps]
      simp only [Arrival.failures, hnested, hkeys, hmissing]

end Schema.Reordered

namespace Arrival

variable {β : Type} {inherit : Inheritance} {f : Arrival → β}

/-- If two arrivals unfold to the same things in some order, lists that differ in nothing but these
arrivals do. -/
theorem perm_map_unfold_middle {first second : Arrival}
    (h : ((unfold inherit [first]).map f).Perm ((unfold inherit [second]).map f))
    (before after : List Arrival) :
    ((unfold inherit (before ++ first :: after)).map f).Perm
      ((unfold inherit (before ++ second :: after)).map f) := by
  have hparted : ∀ arrival, (unfold inherit (before ++ arrival :: after)).map f =
      (unfold inherit before).map f ++ ((unfold inherit [arrival]).map f ++
        (unfold inherit after).map f) := by
    intro arrival
    rw [← List.map_append, ← List.map_append, ← unfold_append, ← unfold_append,
      List.singleton_append]
  rw [hparted, hparted]
  exact (List.Perm.refl _).append (h.append (List.Perm.refl _))

/-- What reordering leaves as it is at each arrival, it leaves as it is in the whole unfolding, up
to the order. -/
theorem perm_map_unfold (inherit : Inheritance)
    (hkept : ∀ {first second : Schema}, first.Reordered second →
      ∀ enclosing, f ⟨first, enclosing⟩ = f ⟨second, enclosing⟩)
    {first second : Schema} (h : first.Reordered second) (enclosing : String) :
    ((unfold inherit [⟨first, enclosing⟩]).map f).Perm
      ((unfold inherit [⟨second, enclosing⟩]).map f) := by
  -- It is enough to compare the arrivals at the children.
  have hofNext : ∀ {first second : Schema} {enclosing : String}, first.Reordered second →
      ((unfold inherit (next inherit ⟨first, enclosing⟩)).map f).Perm
        ((unfold inherit (next inherit ⟨second, enclosing⟩)).map f) →
      ((unfold inherit [⟨first, enclosing⟩]).map f).Perm
        ((unfold inherit [⟨second, enclosing⟩]).map f) := by
    intro first second enclosing hreordered hbelow
    rw [unfold_singleton, unfold_singleton, List.map_cons, List.map_cons, hkept hreordered]
    exact hbelow.cons _
  induction h generalizing enclosing with
  | refl type => exact List.Perm.refl _
  | trans _ _ ih ihNext => exact (ih enclosing).trans (ihNext enclosing)
  | fields hperm =>
      exact hofNext (.fields hperm) ((perm_unfold ((hperm.filterMap Field.type).map _)).map f)
  | symbols hperm => exact hofNext (.symbols hperm) (List.Perm.refl _)
  | branches hperm =>
      exact hofNext (.branches hperm) ((perm_unfold ((hperm.filterMap id).map _)).map f)
  | inField hbelow ih =>
      refine hofNext (.inField hbelow) ?_
      simp only [next, Schema.children_record_middle, List.map_append, List.map_cons]
      exact perm_map_unfold_middle (ih _) _ _
  | inItems hbelow ih => exact hofNext (.inItems hbelow) (ih enclosing)
  | inValues hbelow ih => exact hofNext (.inValues hbelow) (ih enclosing)
  | inBranch hbelow ih =>
      refine hofNext (.inBranch hbelow) ?_
      simp only [next, Schema.children_union_middle, List.map_append, List.map_cons]
      exact perm_map_unfold_middle (ih _) _ _

/-- What reordering leaves as it is at each arrival that has it, it leaves as it is in the whole
unfolding, up to the order. -/
theorem perm_filter_map_unfold (inherit : Inheritance) {f : Arrival → Option β}
    (hkept : ∀ {first second : Schema}, first.Reordered second →
      ∀ enclosing, f ⟨first, enclosing⟩ = f ⟨second, enclosing⟩)
    {first second : Schema} (h : first.Reordered second) (enclosing : String) :
    ((unfold inherit [⟨first, enclosing⟩]).filterMap f).Perm
      ((unfold inherit [⟨second, enclosing⟩]).filterMap f) := by
  have heverything := (perm_map_unfold inherit hkept h enclosing).filterMap id
  rwa [List.filterMap_map, List.filterMap_map] at heverything

end Arrival

namespace Schema

/-- Reordering leaves a schema unshared. -/
theorem Unshared.of_reordered {root other : Schema} (hunshared : root.Unshared)
    (h : root.Reordered other) : other.Unshared := by
  have hasPairs : ∀ arrivals, Arrival.namedNodes arrivals =
      ((arrivals.map fun arrival => (arrival.type.isNamed, arrival.type.node)).filter
        Prod.fst).map Prod.snd := by
    intro arrivals
    rw [List.filter_map, List.map_map]
    rfl
  have hkept : ∀ {first second : Schema}, first.Reordered second → String →
      (first.isNamed, first.node) = (second.isNamed, second.node) := by
    intro first second h _
    obtain ⟨hnode, -, hdefinition, -⟩ := h.same
    exact Prod.ext (congrArg Option.isSome hdefinition) hnode
  have hsameNodes := Arrival.perm_map_unfold Definition.innerNamespace
    (f := fun arrival => (arrival.type.isNamed, arrival.type.node)) hkept h ""
  rw [← Arrival.nodup_named_nodes_unfold_iff other "", hasPairs,
    ← ((hsameNodes.filter _).map _).nodup_iff, ← hasPairs]
  exact (Arrival.nodup_named_nodes_unfold_iff root "").2 hunshared

/-- The fullnames that are asked for in a schema are asked for at its arrivals. -/
theorem fullnames_asked_eq (root : Schema) :
    ((root.arrivals Definition.innerNamespace).filterMap fun arrival =>
        arrival.registration?.map Registration.fullname) =
      root.registrations.map Registration.fullname := by
  rw [registrations, List.map_filterMap]

/-- The messages about a schema are those about what is wrong at its arrivals, and one for every
time that a fullname is asked for again. -/
theorem messages_failures (root : Schema) :
    ((root.failures.map fun failure => failure.diagnostic.message : List String) :
        Multiset String) =
      ((root.arrivals Definition.innerNamespace).map Arrival.failures).sum.map
          (fun failure => failure.diagnostic.message) +
        ((repeats id [] (root.registrations.map Registration.fullname)).map fun fullname =>
          Code.duplicateName.labelled ("duplicate definition of " ++ Text.quoted fullname) :
            List String) := by
  rw [failures, ← Multiset.map_coe, failures_events, Multiset.map_add, Multiset.map_coe,
    ← map_key_repeats, List.map_map, List.map_map]
  rfl

/-- The reports on two schemas that differ in nothing but the order of fields, symbols and branches
have the same messages, the same lines of trace and the same names, in some order each, and either
both schemas are accepted or neither is, if no named node is reached along two different paths. -/
theorem Unshared.verify_reordered {root other : Schema} (hunshared : root.Unshared)
    (h : root.Reordered other) (trace : Bool) :
    ((root.verify ⟨trace, false⟩).diagnostics.map Diagnostic.message).Perm
        ((other.verify ⟨trace, false⟩).diagnostics.map Diagnostic.message) ∧
      (root.verify ⟨trace, false⟩).trace.Perm (other.verify ⟨trace, false⟩).trace ∧
      (∀ k, k ∈ (root.verify ⟨trace, false⟩).names.fullnames ↔
        k ∈ (other.verify ⟨trace, false⟩).names.fullnames) ∧
      ((root.verify ⟨trace, false⟩).outcome = .ok () ↔
        (other.verify ⟨trace, false⟩).outcome = .ok ()) := by
  have hwalked := hunshared.arrivals_eq_unfold Definition.innerNamespace
  have hwalkedOther := (hunshared.of_reordered h).arrivals_eq_unfold Definition.innerNamespace
  have hsameFailures :=
    Arrival.perm_map_unfold Definition.innerNamespace (fun h => h.failures_eq) h ""
  have hsameNames :=
    Arrival.perm_filter_map_unfold Definition.innerNamespace
      (f := fun arrival => arrival.registration?.map Registration.fullname)
      (fun h => h.fullname_asked_eq) h ""
  have hsameEntries :=
    Arrival.perm_filter_map_unfold Definition.innerNamespace (fun h => h.entry_eq) h ""
  rw [← hwalked, ← hwalkedOther] at hsameFailures hsameNames hsameEntries
  rw [fullnames_asked_eq, fullnames_asked_eq] at hsameNames
  have hmessages : (root.failures.map fun failure => failure.diagnostic.message).Perm
      (other.failures.map fun failure => failure.diagnostic.message) := by
    rw [← Multiset.coe_eq_coe, messages_failures, messages_failures, hsameFailures.sum_eq,
      Multiset.coe_eq_coe.2 ((perm_repeats [] hsameNames).map _)]
  refine ⟨?_, ?_, ?_, ?_⟩
  · rw [diagnostics_verify, diagnostics_verify, List.map_map, List.map_map]
    exact hmessages
  · rw [trace_verify, trace_verify]
    cases trace with
    | false => exact List.Perm.refl _
    | true => exact hsameEntries
  · intro k
    rw [mem_fullnames_verify_iff, mem_fullnames_verify_iff]
    exact hsameNames.mem_iff
  · rw [outcome_verify_eq_ok_iff, outcome_verify_eq_ok_iff, ← List.length_eq_zero_iff,
      ← List.length_eq_zero_iff]
    have hsameLength := hmessages.length_eq
    rw [List.length_map, List.length_map] at hsameLength
    rw [hsameLength]

/-- An enum for the states of a task. -/
def state (symbols : List String) : Schema :=
  .enum 1 (.declare "State" "" "task" .unknown) symbols

/-- A fixed with the name of the enum. -/
def stamp : Schema :=
  .fixed 2 (.declare "State" "" "task" ⟨1, 7, 3⟩) 8

/-- A record with two fields of one name. -/
def task (first second : Schema) : Schema :=
  .record 0 (.declare "Task" "task" "" .unknown) [⟨"state", some first⟩, ⟨"state", some second⟩]

/-- A task with an enum first, which lists a symbol twice. -/
def enumFirst : Schema :=
  task (state ["open", "done", "open"])
    (.union 3 [some stamp, none, some (.primitive 4 "null")])

/-- The same task with its fields, symbols and branches in another order. -/
def enumLast : Schema :=
  task (.union 3 [none, some (.primitive 4 "null"), some stamp])
    (state ["open", "open", "done"])

/-- In two orders of a task, another type is said to be the duplicate, so that the diagnostics are
not the same in any order; but their messages are. -/
theorem verify_enum_first_reordered : enumFirst.Unshared ∧ enumFirst.Reordered enumLast ∧
    ((enumFirst.verify ⟨true, false⟩).diagnostics.map Diagnostic.message).Perm
      ((enumLast.verify ⟨true, false⟩).diagnostics.map Diagnostic.message) ∧
    ¬ (enumFirst.verify ⟨true, false⟩).diagnostics.Perm
      (enumLast.verify ⟨true, false⟩).diagnostics := by
  have hinner : Definition.innerNamespace (.declare "Task" "task" "" .unknown) "" = "task" := by
    decide
  have hunshared : enumFirst.Unshared := by
    rw [← @Arrival.nodup_named_nodes_unfold_iff Definition.innerNamespace _ ""]
    simp [enumFirst, task, state, stamp, Arrival.unfold, Arrival.next, children,
      Arrival.handedDown, definition?, hinner, Arrival.namedNodes, isNamed, Schema.node]
  have hsymbols : (state ["open", "done", "open"]).Reordered (state ["open", "open", "done"]) :=
    .symbols (by decide)
  have hbranches : Reordered (.union 3 [some stamp, none, some (.primitive 4 "null")])
      (.union 3 [none, some (.primitive 4 "null"), some stamp]) :=
    .branches (List.perm_append_singleton (some stamp) [none, some (.primitive 4 "null")]).symm
  have hreordered : enumFirst.Reordered enumLast :=
    (@Reordered.inField _ _ [] [⟨"state", _⟩] "state" _ _ hsymbols).trans
      ((@Reordered.inField _ _ [⟨"state", _⟩] [] "state" _ _ hbranches).trans
        (.fields (.swap _ _ [])))
  refine ⟨hunshared, hreordered, (hunshared.verify_reordered hreordered true).1, ?_⟩
  rw [diagnostics_verify, diagnostics_verify]
  decide

end Schema

end AvroSchema
