import AvroSchema.Proofs.Relabelling
import AvroSchema.Proofs.SpelledOut

/-!
# Spellings of names

`Schema.Respelled` says that two schemas differ only in how names are written that are accepted and
resolve to the same, and in the identities of nodes. With all names spelled out, such schemas differ
in nothing but the identities (`Schema.Respelled.relabelled`). The main statement says that a
verifier cannot tell them apart if no named node is reached along two different paths
(`Schema.Respelled.runs_alike`).
-/

namespace AvroSchema

/-- Two definitions with accepted names that resolve to the same inside an enclosing namespace, and
with the same recorded fullname and place. -/
structure Definition.Respelled (enclosing : String) (definition other : Definition) : Prop where
  accepted : definition.nameError? = none
  otherAccepted : other.nameError? = none
  resolve : definition.resolve enclosing = other.resolve enclosing
  fullname : definition.fullname = other.fullname
  location : definition.location = other.location

mutual
/-- Two types that differ only in how names are written, and in the identities of nodes, where both
are reached with an enclosing namespace. The types in a record inherit the namespace that its
definition resolves to, and those in any other type the one around it. -/
inductive Schema.Respelled : String → Schema → Schema → Prop where
  | primitive {enclosing : String} {node other : NodeId} {token : String} :
      Schema.Respelled enclosing (.primitive node token) (.primitive other token)
  | record {enclosing : String} {node other : NodeId} {definition second : Definition}
      {fields others : List Field} :
      definition.Respelled enclosing second →
        Field.Respelled (definition.resolve enclosing).ns fields others →
          Schema.Respelled enclosing (.record node definition fields) (.record other second others)
  | enum {enclosing : String} {node other : NodeId} {definition second : Definition}
      {symbols : List String} :
      definition.Respelled enclosing second →
        Schema.Respelled enclosing (.enum node definition symbols) (.enum other second symbols)
  | fixed {enclosing : String} {node other : NodeId} {definition second : Definition}
      {size : Nat} :
      definition.Respelled enclosing second →
        Schema.Respelled enclosing (.fixed node definition size) (.fixed other second size)
  | array {enclosing : String} {node other : NodeId} {items others : Option Schema} :
      Schema.RespelledChild enclosing items others →
        Schema.Respelled enclosing (.array node items) (.array other others)
  | map {enclosing : String} {node other : NodeId} {values others : Option Schema} :
      Schema.RespelledChild enclosing values others →
        Schema.Respelled enclosing (.map node values) (.map other others)
  | union {enclosing : String} {node other : NodeId} {branches others : List (Option Schema)} :
      Schema.RespelledBranches enclosing branches others →
        Schema.Respelled enclosing (.union node branches) (.union other others)

/-- Two places where a type is due and that differ only in how names are written. -/
inductive Schema.RespelledChild : String → Option Schema → Option Schema → Prop where
  | missing {enclosing : String} : Schema.RespelledChild enclosing none none
  | present {enclosing : String} {type other : Schema} : Schema.Respelled enclosing type other →
      Schema.RespelledChild enclosing (some type) (some other)

/-- Fields that differ only in how the names in their types are written. -/
inductive Field.Respelled : String → List Field → List Field → Prop where
  | nil {enclosing : String} : Field.Respelled enclosing [] []
  | cons {enclosing name : String} {type other : Option Schema} {fields others : List Field} :
      Schema.RespelledChild enclosing type other → Field.Respelled enclosing fields others →
        Field.Respelled enclosing (⟨name, type⟩ :: fields) (⟨name, other⟩ :: others)

/-- Branches that differ only in how names are written. -/
inductive Schema.RespelledBranches :
    String → List (Option Schema) → List (Option Schema) → Prop where
  | nil {enclosing : String} : Schema.RespelledBranches enclosing [] []
  | missing {enclosing : String} {branches others : List (Option Schema)} :
      Schema.RespelledBranches enclosing branches others →
        Schema.RespelledBranches enclosing (none :: branches) (none :: others)
  | present {enclosing : String} {type other : Schema} {branches others : List (Option Schema)} :
      Schema.Respelled enclosing type other →
        Schema.RespelledBranches enclosing branches others →
          Schema.RespelledBranches enclosing (some type :: branches) (some other :: others)
end

namespace Definition.Respelled

variable {enclosing : String} {definition other : Definition}

/-- Spelled out, both names are written in one way. -/
theorem spelled_out_eq (h : definition.Respelled enclosing other) :
    definition.spelledOut enclosing = other.spelledOut enclosing := by
  simp [spelledOut, h.accepted, h.otherAccepted, h.resolve, h.fullname, h.location]

/-- Both definitions hand down the namespace that they resolve to. -/
theorem inner_namespace (h : definition.Respelled enclosing other) :
    definition.innerNamespace enclosing = (definition.resolve enclosing).ns ∧
      other.innerNamespace enclosing = (definition.resolve enclosing).ns := by
  simp [Definition.innerNamespace, h.accepted, h.otherAccepted, h.resolve]

end Definition.Respelled

namespace Schema

/-- The named nodes at the ends of the same paths correspond. -/
def Corresponds (same : NodeId → NodeId → Prop) (type other : Schema) : Prop :=
  ∀ path node next, type.LeadsTo path node → other.LeadsTo path next → same node next

/-- The named nodes at the ends of the same paths from types at the same positions correspond. -/
def Correspond (same : NodeId → NodeId → Prop) (types others : List Schema) : Prop :=
  ∀ (position : Nat) (type other : Schema), types[position]? = some type →
    others[position]? = some other → type.Corresponds same other

variable {same : NodeId → NodeId → Prop} {type other : Schema} {types others : List Schema}

/-- The children of types with corresponding nodes have corresponding nodes. -/
theorem Corresponds.children (h : type.Corresponds same other) :
    Correspond same type.children other.children := by
  intro position child sibling hchild hsibling path node next hleads halsoLeads
  exact h (position :: path) node next (leads_to_cons.2 ⟨child, hchild, hleads⟩)
    (leads_to_cons.2 ⟨sibling, hsibling, halsoLeads⟩)

/-- If named types have corresponding nodes, their own nodes correspond. -/
theorem Corresponds.same_node (h : type.Corresponds same other) (hnamed : type.isNamed)
    (hotherNamed : other.isNamed) : same type.node other.node :=
  h [] _ _ (leads_to_nil.2 ⟨hnamed, rfl⟩) (leads_to_nil.2 ⟨hotherNamed, rfl⟩)

/-- The first ones of types with corresponding nodes have them. -/
theorem Correspond.head (h : Correspond same (type :: types) (other :: others)) :
    type.Corresponds same other :=
  h 0 type other rfl rfl

/-- The further ones of types with corresponding nodes have them. -/
theorem Correspond.tail (h : Correspond same (type :: types) (other :: others)) :
    Correspond same types others :=
  fun position => h (position + 1)

end Schema

variable {same : NodeId → NodeId → Prop}

mutual
/-- With all names spelled out, types that differ only in how names are written differ only in the
identities of nodes. -/
theorem Schema.Respelled.relabelled {enclosing : String} {type other : Schema}
    (h : type.Respelled enclosing other) (hnodes : type.Corresponds same other) :
    (type.spelledOut enclosing).Relabelled same (other.spelledOut enclosing) := by
  cases type with
  | primitive =>
      cases h
      exact .primitive
  | record =>
      cases h with
      | record hrespelled hsameFields =>
          -- Both records hand down the namespace for which their fields are compared.
          obtain ⟨hinner, hotherInner⟩ := hrespelled.inner_namespace
          rw [Schema.spelledOut, Schema.spelledOut, ← hrespelled.spelled_out_eq, hinner,
            hotherInner]
          exact .record (hnodes.same_node rfl rfl)
            (Field.Respelled.relabelled hsameFields hnodes.children)
  | enum =>
      cases h with
      | enum hrespelled =>
          rw [Schema.spelledOut, Schema.spelledOut, ← hrespelled.spelled_out_eq]
          exact .enum (hnodes.same_node rfl rfl)
  | fixed =>
      cases h with
      | fixed hrespelled =>
          rw [Schema.spelledOut, Schema.spelledOut, ← hrespelled.spelled_out_eq]
          exact .fixed (hnodes.same_node rfl rfl)
  | array =>
      cases h with
      | array hsameItems =>
          exact .array (Schema.RespelledChild.relabelled hsameItems hnodes.children)
  | map =>
      cases h with
      | map hsameValues =>
          exact .map (Schema.RespelledChild.relabelled hsameValues hnodes.children)
  | union =>
      cases h with
      | union hsameBranches =>
          exact .union (Schema.RespelledBranches.relabelled hsameBranches hnodes.children)

termination_by structural type

/-- So do two places where a type is due. -/
theorem Schema.RespelledChild.relabelled {enclosing : String} {child other : Option Schema}
    (h : Schema.RespelledChild enclosing child other)
    (hnodes : Schema.Correspond same child.toList other.toList) :
    Schema.RelabelledChild same (Schema.spelledOutChild enclosing child)
      (Schema.spelledOutChild enclosing other) := by
  cases child with
  | none =>
      cases h
      exact .missing
  | some type =>
      cases h with
      | present hsameType => exact .present (Schema.Respelled.relabelled hsameType hnodes.head)

termination_by structural child

/-- So do fields. -/
theorem Field.Respelled.relabelled {enclosing : String} {fields others : List Field}
    (h : Field.Respelled enclosing fields others)
    (hnodes : Schema.Correspond same (fields.filterMap Field.type) (others.filterMap Field.type)) :
    Field.Relabelled same (Field.spelledOut enclosing fields)
      (Field.spelledOut enclosing others) := by
  match fields with
  | [] =>
      cases h
      exact .nil
  | ⟨name, none⟩ :: rest =>
      cases h with
      | cons hsameChild hsameRest =>
          cases hsameChild
          exact .cons .missing (Field.Respelled.relabelled hsameRest hnodes)
  | ⟨name, some type⟩ :: rest =>
      cases h with
      | cons hsameChild hsameRest =>
          cases hsameChild with
          | present hsameType =>
              exact .cons (.present (Schema.Respelled.relabelled hsameType hnodes.head))
                (Field.Respelled.relabelled hsameRest hnodes.tail)

termination_by structural fields

/-- So do branches. -/
theorem Schema.RespelledBranches.relabelled {enclosing : String}
    {branches others : List (Option Schema)}
    (h : Schema.RespelledBranches enclosing branches others)
    (hnodes : Schema.Correspond same (branches.filterMap id) (others.filterMap id)) :
    Schema.RelabelledBranches same (Schema.spelledOutBranches enclosing branches)
      (Schema.spelledOutBranches enclosing others) := by
  match branches with
  | [] =>
      cases h
      exact .nil
  | none :: rest =>
      cases h with
      | missing hsameRest => exact .missing (Schema.RespelledBranches.relabelled hsameRest hnodes)
  | some type :: rest =>
      cases h with
      | present hsameType hsameRest =>
          exact .present (Schema.Respelled.relabelled hsameType hnodes.head)
            (Schema.RespelledBranches.relabelled hsameRest hnodes.tail)
termination_by structural branches
end

namespace Schema

/-- Two named nodes stand at the same place in two schemas if one path leads to both. -/
def SamePlace (root other : Schema) (node next : NodeId) : Prop :=
  ∃ path, root.LeadsTo path node ∧ other.LeadsTo path next

variable {root other : Schema}

/-- A path leads to one node at most. -/
theorem LeadsTo.unique {path : List Nat} {node next : NodeId} (h : root.LeadsTo path node)
    (hnext : root.LeadsTo path next) : node = next := by
  obtain ⟨inner, hfound, -, rfl⟩ := h
  obtain ⟨second, halsoFound, -, rfl⟩ := hnext
  rw [hfound] at halsoFound
  cases halsoFound
  rfl

/-- If no named node is reached along two different paths, the nodes at the same places correspond
one to one. -/
theorem Unshared.biunique_same_place (hunshared : root.Unshared) (hotherUnshared : other.Unshared) :
    Relator.BiUnique (root.SamePlace other) := by
  constructor
  · rintro node second next ⟨path, hleads, hleadsNext⟩ ⟨another, hleadsSecond, hagain⟩
    cases hotherUnshared next path another hleadsNext hagain
    exact hleads.unique hleadsSecond
  · rintro node next second ⟨path, hleads, hleadsNext⟩ ⟨another, hagain, hleadsSecond⟩
    cases hunshared node path another hleads hagain
    exact hleadsNext.unique hleadsSecond

/-- How names are written does not matter. If two schemas differ only in how names are written that
are accepted and resolve to the same where they stand, and no named node of either is reached along
two different paths, then whatever options a verifier has and whatever it has done before, its runs
on them have the same outcome and report the same diagnostics in the same order. The name tables
that they leave behind have the same fullnames in the same order, for nodes at the same places. -/
theorem Respelled.runs_alike (h : root.Respelled "" other) (hunshared : root.Unshared)
    (hotherUnshared : other.Unshared) (verifier : Verifier) (log : List Diagnostic) :
    (verifier.run log other).outcome = (verifier.run log root).outcome ∧
      (verifier.run log other).log = (verifier.run log root).log ∧
      List.Forall₂ (fun entry next => entry.1 = next.1 ∧ root.SamePlace other entry.2 next.2)
        (verifier.run log root).verifier.names.nodes
        (verifier.run log other).verifier.names.nodes := by
  obtain ⟨entered, hran, -⟩ := verifier.run_eq log root
  obtain ⟨otherEntered, hotherRan, -⟩ := verifier.run_eq log other
  have hrelabelled : (root.spelledOut "").Relabelled (root.SamePlace other) (other.spelledOut "") :=
    h.relabelled fun path node next hleads halsoLeads => ⟨path, hleads, halsoLeads⟩
  have hspelled := root.verify_spelled_out verifier.options
  have hotherSpelled := other.verify_spelled_out verifier.options
  have hreports :=
    hrelabelled.verify_matches (hunshared.biunique_same_place hotherUnshared) verifier.options
  have hdiagnostics : (other.verify verifier.options).diagnostics =
      (root.verify verifier.options).diagnostics := by
    rw [hspelled.diagnostics, hotherSpelled.diagnostics, hreports.diagnostics]
  rw [hran, hotherRan]
  simp only [outcome_verify_eq_head, hdiagnostics]
  refine ⟨trivial, trivial, ?_⟩
  rw [hspelled.names, hotherSpelled.names, NameTable.nodes, NameTable.nodes,
    List.forall₂_map_left_iff, List.forall₂_map_right_iff]
  exact hreports.names.imp fun _ _ hentry => ⟨hentry.fullname, hentry.node⟩

/-- A record with an enum that lists a symbol twice and with an optional fixed. The definitions are
the given ones, and the nodes are numbered from the given one. -/
def order (node : NodeId) (order status stamp : Definition) : Schema :=
  .record node order
    [⟨"status", some (.enum (node + 1) status ["OPEN", "OPEN"])⟩,
      ⟨"stamp", some (.union (node + 2)
        [some (.primitive (node + 3) "null"), some (.fixed (node + 4) stamp 8)])⟩]

/-- An order whose record has a dotted name that the enum inherits the namespace of. -/
def dottedOrder : Schema :=
  order 1 (.declare "com.acme.Order" "" "" .unknown) (.declare "Status" "" "com.acme" .unknown)
    (.declare "Stamp" "com.acme" "" .unknown)

/-- The same order with an explicit namespace for the record and dotted names inside it. -/
def splitOrder : Schema :=
  order 7 (.declare "Order" "com.acme" "" .unknown) (.declare "com.acme.Status" "" "" .unknown)
    (.declare "com.acme.Stamp" "" "" .unknown)

/-- No node of an order is shared. -/
theorem unshared_order (node : NodeId) (first status stamp : Definition) :
    (order node first status stamp).Unshared := by
  rw [← @Arrival.nodup_named_nodes_unfold_iff Definition.innerNamespace _ ""]
  simp [order, Arrival.unfold, Arrival.next, children, Arrival.handedDown, definition?,
    Arrival.namedNodes, isNamed, Schema.node]

/-- A verifier reports the same symbol of both orders, and defines the same fullnames. -/
theorem runs_alike_order :
    (dottedOrder.Respelled "" splitOrder ∧ dottedOrder.Unshared ∧ splitOrder.Unshared) ∧
    ((Verifier.fresh ⟨false, false⟩).run [] splitOrder).log =
        ((Verifier.fresh ⟨false, false⟩).run [] dottedOrder).log ∧
      ((Verifier.fresh ⟨false, false⟩).run [] dottedOrder).log.length = 1 ∧
      ((Verifier.fresh ⟨false, false⟩).run [] dottedOrder).verifier.names.nodes =
        [("com.acme.Order", 1), ("com.acme.Status", 2), ("com.acme.Stamp", 5)] ∧
      List.Forall₂ (fun entry next =>
          entry.1 = next.1 ∧ dottedOrder.SamePlace splitOrder entry.2 next.2)
        ((Verifier.fresh ⟨false, false⟩).run [] dottedOrder).verifier.names.nodes
        ((Verifier.fresh ⟨false, false⟩).run [] splitOrder).verifier.names.nodes := by
  have hfirst : Definition.Respelled "" (.declare "com.acme.Order" "" "" .unknown)
      (.declare "Order" "com.acme" "" .unknown) := by
    constructor <;> decide
  have hstatus : Definition.Respelled "com.acme" (.declare "Status" "" "com.acme" .unknown)
      (.declare "com.acme.Status" "" "" .unknown) := by
    constructor <;> decide
  have hstamp : Definition.Respelled "com.acme" (.declare "Stamp" "com.acme" "" .unknown)
      (.declare "com.acme.Stamp" "" "" .unknown) := by
    constructor <;> decide
  have hrespelled : dottedOrder.Respelled "" splitOrder :=
    .record hfirst (.cons (.present (.enum hstatus))
      (.cons (.present (.union (.present .primitive (.present (.fixed hstamp) .nil)))) .nil))
  have hunshared : dottedOrder.Unshared := unshared_order 1 _ _ _
  have hotherUnshared : splitOrder.Unshared := unshared_order 7 _ _ _
  obtain ⟨-, hlog, hnames⟩ :=
    hrespelled.runs_alike hunshared hotherUnshared (.fresh ⟨false, false⟩) []
  refine ⟨⟨hrespelled, hunshared, hotherUnshared⟩, hlog, ?_, ?_, hnames⟩
  · decide
  · decide

end Schema

end AvroSchema
