import AvroSchema.Proofs.Registrations
import AvroSchema.Proofs.Unfolding

/-!
# What a walk depends on

What a walk through a type does depends on what came before it, but only through the named nodes
that it comes to itself and the fullnames that it asks for itself. The main statements are that two
walks through a type make the same stops if the same of its nodes have been entered
(`Schema.agrees_tour`), and that the same happens along the stops if the same of the fullnames asked
for are defined (`transcript_congr`).
-/

namespace AvroSchema

namespace Schema

/-- Some of the types lead to a named node. -/
def LeadTo (types : List Schema) (node : NodeId) : Prop :=
  ∃ type ∈ types, ∃ path, type.LeadsTo path node

/-- Two lists of nodes have the same of the named nodes that some types lead to. -/
def AgreeOn (types : List Schema) (entered other : List NodeId) : Prop :=
  ∀ node, LeadTo types node → (node ∈ entered ↔ node ∈ other)

variable {types more : List Schema} {type : Schema} {entered other : List NodeId} {node : NodeId}

/-- The nodes that two lists of types lead to are those that either leads to. -/
theorem lead_to_append : LeadTo (types ++ more) node ↔ LeadTo types node ∨ LeadTo more node := by
  simp only [LeadTo, List.mem_append, or_and_right, exists_or]

/-- No types lead nowhere. -/
theorem not_lead_to_nil : ¬ LeadTo [] node :=
  nofun

/-- A type leads to its own node if it is named, and to those that its children lead to. -/
theorem lead_to_singleton :
    LeadTo [type] node ↔ (type.isNamed ∧ type.node = node) ∨ LeadTo type.children node := by
  have hunfolded : LeadTo [type] node ↔ ∃ path, type.LeadsTo path node := by
    simp [LeadTo]
  rw [hunfolded]
  constructor
  · intro ⟨path, hleads⟩
    cases path with
    | nil => exact .inl (leads_to_nil.1 hleads)
    | cons position rest =>
        obtain ⟨child, hfound, hleadsOn⟩ := leads_to_cons.1 hleads
        exact .inr ⟨child, List.mem_of_getElem? hfound, rest, hleadsOn⟩
  · intro h
    rcases h with hhere | ⟨child, hchild, path, hleads⟩
    · exact ⟨[], leads_to_nil.2 hhere⟩
    · obtain ⟨position, hfound⟩ := List.mem_iff_getElem?.1 hchild
      exact ⟨position :: path, leads_to_cons.2 ⟨child, hfound, hleads⟩⟩

/-- Types lead to what the first of them leads to and what the others lead to. -/
theorem lead_to_cons : LeadTo (type :: more) node ↔
    (type.isNamed ∧ type.node = node) ∨ LeadTo type.children node ∨ LeadTo more node := by
  rw [← List.singleton_append, lead_to_append, lead_to_singleton, or_assoc]

/-- Lists that agree on the nodes of all types agree on those of the first ones. -/
theorem AgreeOn.left (hagree : AgreeOn (types ++ more) entered other) :
    AgreeOn types entered other :=
  fun node hleads => hagree node (lead_to_append.2 (.inl hleads))

/-- Lists that agree on the nodes of all types agree on those of the last ones. -/
theorem AgreeOn.right (hagree : AgreeOn (types ++ more) entered other) :
    AgreeOn more entered other :=
  fun node hleads => hagree node (lead_to_append.2 (.inr hleads))

/-- Lists that agree on the nodes of a type agree on those of its children. -/
theorem AgreeOn.children (hagree : AgreeOn [type] entered other) :
    AgreeOn type.children entered other :=
  fun node hleads => hagree node (lead_to_singleton.2 (.inr hleads))

/-- Lists that agree on the nodes of a named type agree on its own. -/
theorem AgreeOn.mem_iff (hagree : AgreeOn [type] entered other) (hnamed : type.isNamed) :
    type.node ∈ entered ↔ type.node ∈ other :=
  hagree _ (lead_to_singleton.2 (.inl ⟨hnamed, rfl⟩))

/-- Lists that agree still do after the same nodes have been added to both. -/
theorem AgreeOn.append (hagree : AgreeOn types entered other) (added : List NodeId) :
    AgreeOn types (added ++ entered) (added ++ other) := by
  intro node hleads
  rw [List.mem_append, List.mem_append, hagree node hleads]

end Schema

open Schema

namespace Tour

/-- Two tours make the same stops and add the same nodes to what was entered before each of them,
all of which some types lead to. -/
def Agrees (types : List Schema) (entered other : List NodeId) (tour second : Tour) : Prop :=
  tour.stops = second.stops ∧ ∃ added, (∀ node ∈ added, LeadTo types node) ∧
    tour.entered = added ++ entered ∧ second.entered = added ++ other

variable {types more : List Schema} {type : Schema} {entered other : List NodeId}
  {tour second : Tour}

/-- Tours that enter nothing agree if they make the same stops. -/
theorem agrees_of_not_entering (stops : List Stop) :
    Agrees types entered other ⟨stops, entered⟩ ⟨stops, other⟩ :=
  ⟨rfl, [], nofun, rfl, rfl⟩

/-- Tours still agree with the same stop in front of both. -/
theorem Agrees.after (hagrees : Agrees types entered other tour second) (stop : Stop) :
    Agrees types entered other (tour.after stop) (second.after stop) :=
  ⟨congrArg (stop :: ·) hagrees.1, hagrees.2⟩

/-- Tours agree on a type if they agree on its children. -/
theorem Agrees.of_children (hagrees : Agrees type.children entered other tour second) :
    Agrees [type] entered other tour second := by
  obtain ⟨hstops, added, hled, henteredFirst, henteredSecond⟩ := hagrees
  refine ⟨hstops, added, ?_, henteredFirst, henteredSecond⟩
  exact fun node hadded => lead_to_singleton.2 (.inr (hled node hadded))

/-- Tours agree on a named type if they agree on its children after entering it. -/
theorem Agrees.of_enter (hnamed : type.isNamed)
    (hagrees : Agrees type.children (type.node :: entered) (type.node :: other) tour second) :
    Agrees [type] entered other tour second := by
  obtain ⟨hstops, added, hled, henteredFirst, henteredSecond⟩ := hagrees
  refine ⟨hstops, added ++ [type.node], ?_, ?_, ?_⟩
  · intro node hadded
    rw [List.mem_append, List.mem_singleton] at hadded
    rcases hadded with hadded | rfl
    · exact lead_to_singleton.2 (.inr (hled node hadded))
    · exact lead_to_singleton.2 (.inl ⟨hnamed, rfl⟩)
  · rw [henteredFirst, List.append_assoc, List.singleton_append]
  · rw [henteredSecond, List.append_assoc, List.singleton_append]

/-- Tours that pass over a named type if it has been entered agree if they do otherwise. -/
theorem Agrees.of_named (hnamed : type.isNamed) (hagree : AgreeOn [type] entered other)
    (stop : Stop) (hagrees : Agrees [type] entered other tour second) :
    Agrees [type] entered other (if entered.contains type.node then ⟨[stop], entered⟩ else tour)
      (if other.contains type.node then ⟨[stop], other⟩ else second) := by
  have hknown := hagree.mem_iff hnamed
  by_cases hisKnown : type.node ∈ entered
  · rw [if_pos (by simpa using hisKnown), if_pos (by simpa using hknown.1 hisKnown)]
    exact agrees_of_not_entering _
  · rw [if_neg (by simpa using hisKnown), if_neg (by simpa [← hknown] using hisKnown)]
    exact hagrees

/-- Tours that agree are followed by tours that agree if these do whenever they start with the same
of the nodes that they come to. -/
theorem Agrees.and_then {next : List NodeId → Tour} (hagree : AgreeOn (types ++ more) entered other)
    (hagrees : Agrees types entered other tour second)
    (hlater : ∀ {entered other}, AgreeOn more entered other →
      Agrees more entered other (next entered) (next other)) :
    Agrees (types ++ more) entered other (tour.andThen next) (second.andThen next) := by
  obtain ⟨hstops, added, hled, henteredFirst, henteredSecond⟩ := hagrees
  obtain ⟨hlaterStops, laterAdded, hlaterLed, hlaterFirst, hlaterSecond⟩ :=
    hlater (hagree.right.append added)
  rw [← henteredFirst, ← henteredSecond] at hlaterStops
  rw [← henteredFirst] at hlaterFirst
  rw [← henteredSecond] at hlaterSecond
  refine ⟨?_, laterAdded ++ added, ?_, ?_, ?_⟩
  · show tour.stops ++ (next tour.entered).stops = second.stops ++ (next second.entered).stops
    rw [hstops, hlaterStops]
  · intro node hadded
    rw [lead_to_append]
    rcases List.mem_append.1 hadded with hadded | hadded
    · exact .inr (hlaterLed node hadded)
    · exact .inl (hled node hadded)
  · show (next tour.entered).entered = _
    rw [hlaterFirst, henteredFirst, List.append_assoc]
  · show (next second.entered).entered = _
    rw [hlaterSecond, henteredSecond, List.append_assoc]

end Tour

mutual
/-- Two tours of a type agree if the same of its nodes have been entered before them. -/
theorem Schema.agrees_tour (enclosing : String) {entered other : List NodeId} (type : Schema)
    (hagree : AgreeOn [type] entered other) :
    Tour.Agrees [type] entered other (type.tour enclosing entered) (type.tour enclosing other) := by
  cases type with
  | primitive node token => exact Tour.agrees_of_not_entering _
  | record node definition fields =>
      rw [Schema.tour, Schema.tour]
      have hinside := Field.agrees_tour definition (definition.innerNamespace enclosing) [] fields
        (hagree.children.append [node])
      exact .of_named rfl hagree _ (.of_enter rfl (hinside.after _))
  | enum node definition symbols =>
      rw [Schema.tour, Schema.tour]
      exact .of_named rfl hagree _ (.of_enter rfl (Tour.agrees_of_not_entering _))
  | fixed node definition size =>
      rw [Schema.tour, Schema.tour]
      exact .of_named rfl hagree _ (.of_enter rfl (Tour.agrees_of_not_entering _))
  | array node items =>
      rw [Schema.tour, Schema.tour]
      have hinside := Schema.agrees_tour_child .element enclosing items hagree.children
      exact .of_children (hinside.after _)
  | map node values =>
      rw [Schema.tour, Schema.tour]
      have hinside := Schema.agrees_tour_child .element enclosing values hagree.children
      exact .of_children (hinside.after _)
  | union node branches =>
      rw [Schema.tour, Schema.tour]
      have hinside := Schema.agrees_tour_branches enclosing [] branches hagree.children
      exact .of_children (hinside.after _)

/-- Two tours of a place where a type is due agree if the same nodes have been entered. -/
theorem Schema.agrees_tour_child (gap : Gap) (enclosing : String) {entered other : List NodeId}
    (child : Option Schema) (hagree : AgreeOn child.toList entered other) :
    Tour.Agrees child.toList entered other (Schema.tourChild gap enclosing entered child)
      (Schema.tourChild gap enclosing other child) := by
  cases child with
  | none => exact Tour.agrees_of_not_entering _
  | some type => exact Schema.agrees_tour enclosing type hagree

/-- Two tours of the fields of a record agree if the same nodes have been entered. -/
theorem Field.agrees_tour (definition : Definition) (enclosing : String) (earlier : List String)
    {entered other : List NodeId} (fields : List Field)
    (hagree : AgreeOn (fields.filterMap Field.type) entered other) :
    Tour.Agrees (fields.filterMap Field.type) entered other
      (Field.tour definition enclosing earlier entered fields)
      (Field.tour definition enclosing earlier other fields) := by
  match fields with
  | [] => exact Tour.agrees_of_not_entering _
  | ⟨name, type⟩ :: rest =>
      have htypes : (⟨name, type⟩ :: rest).filterMap Field.type =
          type.toList ++ rest.filterMap Field.type := by
        cases type <;> rfl
      rw [htypes] at hagree ⊢
      rw [Field.tour, Field.tour]
      have hfirst := Schema.agrees_tour_child (.field definition) enclosing type hagree.left
      exact (hfirst.and_then hagree
        (Field.agrees_tour definition enclosing (name :: earlier) rest)).after _

/-- Two tours of the branches of a union agree if the same nodes have been entered. -/
theorem Schema.agrees_tour_branches (enclosing : String) (earlier : List String)
    {entered other : List NodeId} (branches : List (Option Schema))
    (hagree : AgreeOn (branches.filterMap id) entered other) :
    Tour.Agrees (branches.filterMap id) entered other
      (Schema.tourBranches enclosing earlier entered branches)
      (Schema.tourBranches enclosing earlier other branches) := by
  match branches with
  | [] => exact Tour.agrees_of_not_entering _
  | none :: rest =>
      rw [Schema.tourBranches, Schema.tourBranches]
      exact (Schema.agrees_tour_branches enclosing earlier rest hagree).after _
  | some type :: rest =>
      have htypes : (some type :: rest).filterMap id = [type] ++ rest.filterMap id := rfl
      rw [htypes] at hagree ⊢
      have hfirst := Schema.agrees_tour enclosing type hagree.left
      rw [Schema.tourBranches, Schema.tourBranches]
      split
      · exact (hfirst.and_then hagree
          (Schema.agrees_tour_branches enclosing earlier rest)).after _
      · exact (hfirst.and_then hagree
          (Schema.agrees_tour_branches enclosing (type.branchKey enclosing :: earlier)
            rest)).after _
end

/-- The fullnames that are asked for along a walk. -/
def Stop.namesAsked (stops : List Stop) : List String :=
  (stops.filterMap Stop.registration?).map Registration.fullname

/-- The fullnames that events define come after those defined before. -/
theorem NameTable.fullnames_extend (names : NameTable) (events : List Event) :
    (names.extend events).fullnames =
      names.fullnames ++ (events.filterMap Event.definition?).map Prod.fst :=
  List.map_append

/-- The fullnames defined after a walk are those defined before it and those it asks for. -/
theorem NameTable.mem_fullnames_extend_transcript (names : NameTable) (stops : List Stop)
    (k : String) :
    k ∈ (names.extend (transcript names stops)).fullnames ↔
      k ∈ Stop.namesAsked stops ∨ k ∈ names.fullnames := by
  rw [fullnames, entries_extend_transcript, List.map_append, List.mem_append, List.map_map]
  show k ∈ names.fullnames ∨ k ∈ (firsts Registration.fullname _ _).map Registration.fullname ↔ _
  rw [mem_keys_firsts, Stop.namesAsked]
  by_cases hknown : k ∈ names.fullnames
  · simp only [hknown, true_or, or_true]
  · simp only [hknown, not_false_eq_true, and_true, false_or, or_false]

/-- The same happens at a stop if the fullname that it asks for is defined in both tables or in
neither. -/
theorem Stop.events_congr {names other : NameTable} (stop : Stop)
    (hsame : ∀ registration ∈ stop.registration?,
      (registration.fullname ∈ names.fullnames ↔ registration.fullname ∈ other.fullnames)) :
    stop.events names = stop.events other := by
  cases stop with
  | arrival type enclosing =>
      rw [events, events]
      cases h : type.definition? with
      | none =>
          rw [(Schema.arrival_events_of_unnamed h names enclosing).1,
            (Schema.arrival_events_of_unnamed h other enclosing).1]
      | some definition =>
          rw [Schema.arrival_events_of_definition h, Schema.arrival_events_of_definition h,
            Schema.definitionEvents, Schema.definitionEvents]
          cases haccepted : definition.nameError? with
          | some cause => rfl
          | none =>
              have hasked : Stop.registration? (.arrival type enclosing) =
                  some ⟨type, definition, (definition.resolve enclosing).fullname⟩ :=
                Arrival.registration_of_accepted h haccepted
              simp only [NameTable.defines_iff, hsame _ hasked]
  | returned | field | symbol | nested | branch | gap => rfl

/-- The same happens along a walk if the same of the fullnames that it asks for are defined before
it. -/
theorem transcript_congr {names other : NameTable} (stops : List Stop)
    (hsame : ∀ k ∈ Stop.namesAsked stops, (k ∈ names.fullnames ↔ k ∈ other.fullnames)) :
    transcript names stops = transcript other stops := by
  induction stops generalizing names other with
  | nil => rfl
  | cons stop rest ih =>
      rw [Stop.namesAsked, Stop.filter_map_registration_cons, List.map_append] at hsame
      have hhere : stop.events names = stop.events other := by
        apply stop.events_congr
        intro registration hasked
        exact hsame _ (List.mem_append_left _ (List.mem_map_of_mem (Option.mem_toList.2 hasked)))
      rw [transcript, transcript, hhere]
      refine congrArg (_ ++ ·) (ih ?_)
      -- The same definitions are added to both tables.
      intro k hasked
      rw [NameTable.fullnames_extend, NameTable.fullnames_extend, List.mem_append, List.mem_append,
        hsame k (List.mem_append_right _ hasked)]

end AvroSchema
