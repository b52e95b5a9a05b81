import AvroSchema.Proofs.Frames
import AvroSchema.Proofs.Reports

/-!
# The report on a record and its fields

If the types of a record's fields have no named node in common and ask for no common fullname, then
what is found below one field has nothing to do with the fields before it. The main statement puts
the report on such a record together from the reports on the record with one field at a time
(`verify_record_eq_fields`).
-/

namespace AvroSchema

open Schema

namespace Field

/-- The types of two fields lead to no named node in common. -/
def Apart (first second : Field) : Prop :=
  ∀ node, LeadTo first.type.toList node → ¬ LeadTo second.type.toList node

/-- The stops at the type of a field and below it. -/
def stops (definition : Definition) (enclosing : String) (entered : List NodeId) (field : Field) :
    List Stop :=
  (Schema.tourChild (.field definition) enclosing entered field.type).stops

variable {definition : Definition} {enclosing : String} {base entered : List NodeId}
  {start names : NameTable} {earlier : List String} {fields : List Field}

/-- What happens in the fields of a record is what happens in each of them alone, if their names are
simple and distinct, no two of them lead to a common node, and none of the fullnames asked for in
two of them is left to be defined there. -/
theorem transcript_tour (hsimple : ∀ field ∈ fields, Name.isSimple field.name)
    (hfresh : ∀ field ∈ fields, field.name ∉ earlier) (hdistinct : (fields.map Field.name).Nodup)
    (hagree : ∀ field ∈ fields, AgreeOn field.type.toList entered base)
    (hapart : fields.Pairwise Apart)
    (hknown : ∀ field ∈ fields, ∀ k ∈ Stop.namesAsked (field.stops definition enclosing base),
      (k ∈ names.fullnames ↔ k ∈ start.fullnames))
    (hunclashing : fields.Pairwise fun first second =>
      ∀ k ∈ Stop.namesAsked (first.stops definition enclosing base),
        k ∈ Stop.namesAsked (second.stops definition enclosing base) → k ∈ start.fullnames) :
    transcript names (Field.tour definition enclosing earlier entered fields).stops =
      fields.flatMap fun field => transcript start (field.stops definition enclosing base) := by
  induction fields generalizing earlier entered names with
  | nil => rfl
  | cons field rest ih =>
      obtain ⟨name, type⟩ := field
      rw [List.forall_mem_cons] at hsimple hfresh hagree hknown
      rw [List.map_cons, List.nodup_cons] at hdistinct
      rw [List.pairwise_cons] at hapart hunclashing
      have hchecked : (Stop.field definition earlier name).events names = [] := by
        simp [Stop.events, hsimple.1, hfresh.1]
      obtain ⟨hsameStops, added, hled, hhere, -⟩ :=
        Schema.agrees_tour_child (.field definition) enclosing type hagree.1
      have hbelow : transcript names (Schema.tourChild (.field definition) enclosing entered
          type).stops = transcript start (stops definition enclosing base ⟨name, type⟩) := by
        rw [hsameStops]
        exact transcript_congr _ hknown.1
      have hlaterNodes : ∀ field ∈ rest, AgreeOn field.type.toList (added ++ entered) base := by
        intro field hlater node hleads
        have hnotAdded : node ∉ added :=
          fun hadded => hapart.1 field hlater node (hled node hadded) hleads
        rw [List.mem_append, or_iff_right hnotAdded, hagree.2 field hlater node hleads]
      have hlaterNames : ∀ field ∈ rest,
          ∀ k ∈ Stop.namesAsked (field.stops definition enclosing base),
            (k ∈ (names.extend (transcript names (stops definition enclosing base
              ⟨name, type⟩))).fullnames ↔ k ∈ start.fullnames) := by
        intro field hlater k hasked
        rw [NameTable.mem_fullnames_extend_transcript, hknown.2 field hlater k hasked]
        exact or_iff_right_of_imp fun halsoAsked =>
          hunclashing.1 field hlater k halsoAsked hasked
      have hlaterFresh : ∀ field ∈ rest, field.name ∉ name :: earlier := by
        intro field hlater
        rw [List.mem_cons, not_or]
        refine ⟨fun hsame => hdistinct.1 ?_, hfresh.2 field hlater⟩
        exact List.mem_map.2 ⟨field, hlater, hsame⟩
      have hnothing : names.extend [] = names := by
        simp [NameTable.extend]
      rw [Field.tour]
      show (Stop.field definition earlier name).events names ++ transcript _ (_ ++ _) = _
      rw [hchecked, List.nil_append, hnothing, transcript_append, hbelow, List.flatMap_cons]
      refine congrArg (_ ++ ·) ?_
      rw [hhere, ← transcript_congr _ hknown.1]
      exact ih hsimple.2 hlaterFresh hdistinct.2 hlaterNodes hapart.2 hlaterNames hunclashing.2

end Field

namespace Schema

/-- The record of a definition with one field only. -/
def withField (node : NodeId) (definition : Definition) (field : Field) : Schema :=
  .record node definition [field]

/-- What happens below a field when only the record that it belongs to is entered and defined. -/
def fieldEvents (node : NodeId) (definition : Definition) (field : Field) : List Event :=
  transcript ⟨[(definition.fullname, .record node definition [])]⟩
    (field.stops definition (definition.innerNamespace "") [node])

variable {node : NodeId} {definition : Definition} {fields : List Field} {field : Field}

/-- A record that resolves to the fullname recorded for it is traced and defined, and then its
fields are gone through. -/
theorem events_record (haccepted : definition.nameError? = none)
    (hsame : definition.fullname = (definition.resolve "").fullname) :
    (record node definition fields).events =
      .traced (.ofType (.record node definition fields) "" definition.fullname) ::
        .defined definition.fullname (.record node definition fields) ::
          transcript ⟨[(definition.fullname, .record node definition fields)]⟩
            (Field.tour definition (definition.innerNamespace "") [] [node] fields).stops := by
  have harrived : (Stop.arrival (.record node definition fields) "").events .empty =
      [.traced (.ofType (.record node definition fields) "" definition.fullname),
        .defined definition.fullname (.record node definition fields)] := by
    show (record node definition fields).definitionEvents .empty definition "" = _
    simp [definitionEvents, haccepted, ← hsame, NameTable.defines, NameTable.empty]
  show transcript .empty ((record node definition fields).tour "" []).stops = _
  rw [tour, if_neg (by simp)]
  show (Stop.arrival _ "").events .empty ++ transcript _ _ = _
  rw [harrived]
  rfl

/-- In a record whose fields have nothing in common, the fields are gone through as if each were the
only one. -/
theorem events_record_eq_fields (haccepted : definition.nameError? = none)
    (hsame : definition.fullname = (definition.resolve "").fullname)
    (hsimple : ∀ field ∈ fields, Name.isSimple field.name)
    (hdistinct : (fields.map Field.name).Nodup) (hapart : fields.Pairwise Field.Apart)
    (hunclashing : fields.Pairwise fun first second =>
      ∀ k ∈ Stop.namesAsked (first.stops definition (definition.innerNamespace "") [node]),
        k ∈ Stop.namesAsked (second.stops definition (definition.innerNamespace "") [node]) →
          k = definition.fullname) :
    (record node definition fields).events =
      .traced (.ofType (.record node definition fields) "" definition.fullname) ::
        .defined definition.fullname (.record node definition fields) ::
          fields.flatMap (fieldEvents node definition) := by
  rw [events_record haccepted hsame]
  refine congrArg (_ :: _ :: ·) (Field.transcript_tour hsimple ?_ hdistinct ?_ hapart ?_ ?_)
  · exact fun _ _ => List.not_mem_nil
  · exact fun _ _ _ _ => Iff.rfl
  · exact fun _ _ _ _ => Iff.rfl
  · exact hunclashing.imp fun hclash k hasked halsoAsked =>
      List.mem_singleton.2 (hclash k hasked halsoAsked)

/-- In a record with one field, what happens is the definition of the record and what happens below
the field. -/
theorem events_with_field (haccepted : definition.nameError? = none)
    (hsame : definition.fullname = (definition.resolve "").fullname)
    (hsimple : Name.isSimple field.name) :
    (withField node definition field).events =
      .traced (.ofType (.record node definition [field]) "" definition.fullname) ::
        .defined definition.fullname (.record node definition [field]) ::
          fieldEvents node definition field := by
  have hone := @events_record_eq_fields node definition [field] haccepted hsame
    (List.forall_mem_singleton.2 hsimple) (List.nodup_singleton _)
    (List.pairwise_singleton Field.Apart field) (List.pairwise_singleton _ field)
  rwa [List.flatMap_singleton] at hone

/-- A fullname that is asked for below a field is defined in the record with that field. -/
theorem mem_fullnames_with_field (haccepted : definition.nameError? = none)
    (hsame : definition.fullname = (definition.resolve "").fullname)
    (hsimple : Name.isSimple field.name) (trace : Bool) {k : String}
    (hasked : k ∈ Stop.namesAsked
      (field.stops definition (definition.innerNamespace "") [node])) :
    k ∈ ((withField node definition field).verify ⟨trace, false⟩).names.fullnames := by
  rw [verify_eq, events_with_field haccepted hsame hsimple]
  exact (NameTable.mem_fullnames_extend_transcript
    ⟨[(definition.fullname, .record node definition [])]⟩ _ k).2 (.inl hasked)

/-- The report on a record whose names are sound, and whose fields have nothing in common, is put
together from the reports on the record with one field at a time: the diagnostics follow one
another, the names and the trace are those of the record itself and then what comes after it in each
of the reports, and it is accepted if and only if all of them are. -/
theorem verify_record_eq_fields (haccepted : definition.nameError? = none)
    (hsame : definition.fullname = (definition.resolve "").fullname)
    (hsimple : ∀ field ∈ fields, Name.isSimple field.name)
    (hdistinct : (fields.map Field.name).Nodup) (hapart : fields.Pairwise Field.Apart)
    (trace : Bool)
    (hunclashing : fields.Pairwise fun first second =>
      ∀ k ∈ ((withField node definition first).verify ⟨trace, false⟩).names.fullnames,
        k ∈ ((withField node definition second).verify ⟨trace, false⟩).names.fullnames →
          k = definition.fullname) :
    ((record node definition fields).verify ⟨trace, false⟩).diagnostics =
        fields.flatMap (fun field =>
          ((withField node definition field).verify ⟨trace, false⟩).diagnostics) ∧
      ((record node definition fields).verify ⟨trace, false⟩).names.entries =
        (definition.fullname, .record node definition fields) :: fields.flatMap (fun field =>
          ((withField node definition field).verify ⟨trace, false⟩).names.entries.tail) ∧
      ((record node definition fields).verify ⟨trace, false⟩).trace =
        (if trace then
          .ofType (.record node definition fields) "" definition.fullname ::
            fields.flatMap (fun field =>
              ((withField node definition field).verify ⟨trace, false⟩).trace.tail)
        else []) ∧
      (((record node definition fields).verify ⟨trace, false⟩).outcome = .ok () ↔
        ∀ field ∈ fields,
          ((withField node definition field).verify ⟨trace, false⟩).outcome = .ok ()) ∧
      ∀ field ∈ fields,
        ((withField node definition field).verify ⟨trace, false⟩).names.entries.head? =
            some (definition.fullname, withField node definition field) ∧
          ((withField node definition field).verify ⟨trace, false⟩).trace.head? =
            ((record node definition fields).verify ⟨trace, false⟩).trace.head? := by
  have htogether := events_record_eq_fields haccepted hsame hsimple hdistinct hapart
    (hunclashing.imp_of_mem fun hfirst hsecond hclash k hasked halsoAsked =>
      hclash k (mem_fullnames_with_field haccepted hsame (hsimple _ hfirst) trace hasked)
        (mem_fullnames_with_field haccepted hsame (hsimple _ hsecond) trace halsoAsked))
  have heach : ∀ field ∈ fields, (withField node definition field).events = _ :=
    fun field hfield => events_with_field haccepted hsame (hsimple field hfield)
  have hfailures : (record node definition fields).failures =
      fields.flatMap fun field => (withField node definition field).failures := by
    rw [Schema.failures, htogether]
    simp only [List.filterMap_cons, Event.failure?, List.filterMap_flatMap]
    refine List.flatMap_congr fun field hfield => ?_
    rw [Schema.failures, heach field hfield]
    rfl
  refine ⟨?_, ?_, ?_, ?_, ?_⟩
  · simp only [diagnostics_verify, hfailures, List.map_flatMap, Bool.false_eq_true, if_false]
  · rw [verify_eq, htogether]
    show _ :: (fields.flatMap _).filterMap _ = _
    rw [List.filterMap_flatMap]
    refine congrArg (_ :: ·) (List.flatMap_congr fun field hfield => ?_)
    rw [verify_eq, heach field hfield]
    rfl
  · cases trace with
    | false =>
        rw [verify_eq]
        rfl
    | true =>
        rw [verify_eq, htogether]
        show _ :: (fields.flatMap _).filterMap _ = _
        rw [List.filterMap_flatMap]
        refine congrArg (_ :: ·) (List.flatMap_congr fun field hfield => ?_)
        rw [verify_eq, heach field hfield]
        rfl
  · simp only [outcome_verify_eq_ok_iff, hfailures, List.flatMap_eq_nil_iff]
  · intro field hfield
    rw [verify_eq, verify_eq, heach field hfield, htogether]
    refine ⟨rfl, ?_⟩
    cases trace with
    | false => rfl
    | true => rfl

/-- A fixed with a name that no other type of the survey has. -/
def scale : Schema :=
  .fixed 2 (.declare "Scale" "" "geo" .unknown) 4

/-- The definition of a survey. -/
def surveyed : Definition :=
  .declare "Survey" "geo" "" .unknown

/-- The fields of a survey: the second has no type, and the type of the third lists a branch twice.
-/
def surveyFields : List Field :=
  [⟨"start", some (.map 3 (some point))⟩, ⟨"via", none⟩,
    ⟨"scale", some (.union 4 [some scale, some scale])⟩]

/-- The report on a survey is put together from the reports on its fields, two of which have a
diagnostic. -/
theorem verify_survey_eq_fields : surveyed.nameError? = none ∧
    surveyed.fullname = (surveyed.resolve "").fullname ∧
    (∀ field ∈ surveyFields, Name.isSimple field.name) ∧ (surveyFields.map Field.name).Nodup ∧
    surveyFields.Pairwise Field.Apart ∧
    (surveyFields.Pairwise fun first second =>
      ∀ k ∈ ((withField 0 surveyed first).verify ⟨true, false⟩).names.fullnames,
        k ∈ ((withField 0 surveyed second).verify ⟨true, false⟩).names.fullnames →
          k = surveyed.fullname) ∧
    ((record 0 surveyed surveyFields).verify ⟨true, false⟩).diagnostics =
      surveyFields.flatMap (fun field =>
        ((withField 0 surveyed field).verify ⟨true, false⟩).diagnostics) ∧
    ((record 0 surveyed surveyFields).verify ⟨true, false⟩).diagnostics.length = 2 := by
  have haccepted : surveyed.nameError? = none := by decide
  have hsame : surveyed.fullname = (surveyed.resolve "").fullname := by decide
  have hsimple : ∀ field ∈ surveyFields, Name.isSimple field.name := by
    simp only [surveyFields, List.forall_mem_cons]
    decide
  have hdistinct : (surveyFields.map Field.name).Nodup := by decide
  have hapart : surveyFields.Pairwise Field.Apart := by
    simp [surveyFields, Field.Apart, lead_to_cons, not_lead_to_nil, children, isNamed, definition?,
      Schema.node, point, scale]
  have hunclashing : surveyFields.Pairwise fun first second =>
      ∀ k ∈ ((withField 0 surveyed first).verify ⟨true, false⟩).names.fullnames,
        k ∈ ((withField 0 surveyed second).verify ⟨true, false⟩).names.fullnames →
          k = surveyed.fullname := by
    simp only [surveyFields, List.pairwise_cons, List.forall_mem_cons]
    decide
  have hreport := verify_record_eq_fields haccepted hsame hsimple hdistinct hapart true hunclashing
  refine ⟨haccepted, hsame, hsimple, hdistinct, hapart, hunclashing, hreport.1, ?_⟩
  rw [hreport.1]
  decide

end Schema

end AvroSchema
