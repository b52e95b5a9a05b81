import Mathlib.Data.Multiset.Bind
import AvroSchema.Proofs.Codes
import AvroSchema.Proofs.Registrations
import AvroSchema.Proofs.Runs

/-!
# What diagnostics tell

A message holds its code as the label in front of its first colon, so that the code and the rest of
the message can be read back (`Code.labelled_inj`). From the message about a refused name, the cause
can be told (`NameError.eq_of_message_diagnostic`). What is wrong with a schema is reported at the
place of a type below it (`Schema.location_failures`). The main statement, `diagnostics_legible`,
says so of all that a verifier reports.
-/

namespace AvroSchema

namespace Code

variable {first second : Code} {message other : String}

/-- What stands behind the label in a message. -/
def ending (message : String) : List Char :=
  if message = "" then [] else ':' :: ' ' :: message.toList

/-- A message is the label of its code and what stands behind it. -/
theorem to_list_labelled (h : first ≠ .unclassified) (message : String) :
    (first.labelled message).toList = first.label.toList ++ ending message := by
  rw [labelled, if_neg (label_ne_empty h), ending]
  split
  · rw [List.append_nil]
  · simp

/-- What stands behind the label ends in the message as it was given. -/
theorem ending_injective (h : ending message = ending other) : message = other := by
  unfold ending at h
  split at h
  · next hempty =>
      split at h
      · next hotherEmpty => rw [hempty, hotherEmpty]
      · cases h
  · split at h
    · cases h
    · exact String.toList_injective (List.cons.inj (List.cons.inj h).2).2

/-- What stands behind the label begins with a colon, if anything does. -/
theorem take_while_ending (message : String) : (ending message).takeWhile (· != ':') = [] := by
  unfold ending
  split <;> rfl

/-- What stands in front of the first colon of a message is the label of its code. -/
theorem take_while_labelled (h : first ≠ .unclassified) (message : String) :
    (first.labelled message).toList.takeWhile (· != ':') = first.label.toList := by
  have hnoColon : ∀ character ∈ first.label.toList, (character != ':') = true := by
    intro character hcharacter
    rw [bne_iff_ne]
    rintro rfl
    exact first.colon_not_mem_label hcharacter
  rw [to_list_labelled h, List.takeWhile_append_of_pos hnoColon, take_while_ending, List.append_nil]

/-- A message tells its code and what it says. -/
theorem labelled_inj (hfirst : first ≠ .unclassified) (hsecond : second ≠ .unclassified)
    (h : first.labelled message = second.labelled other) : first = second ∧ message = other := by
  have hsameLabel : first.label.toList = second.label.toList := by
    rw [← take_while_labelled hfirst message, h, take_while_labelled hsecond]
  have hsame : first = second := label_injective (String.toList_injective hsameLabel)
  have hsameText := congrArg String.toList h
  rw [to_list_labelled hfirst, to_list_labelled hsecond, hsameLabel] at hsameText
  exact ⟨hsame, ending_injective (List.append_cancel_left hsameText)⟩

end Code

/-- A quoted text can be told from its quotation. -/
theorem Text.quoted_injective {text other : String} (h : quoted text = quoted other) :
    text = other := by
  have hsame := congrArg String.toList h
  simpa [quoted, String.toList_inj] using hsame

namespace NameError

/-- Every cause for refusing a name has a code of its own. -/
theorem code_ne_unclassified (cause : NameError) : cause.code ≠ .unclassified := by
  cases cause <;> nofun

/-- The cause for which a name is refused can be told from the message about it. -/
theorem eq_of_message_diagnostic {first second : NameError} {location other : Location}
    (h : (first.diagnostic location).message = (second.diagnostic other).message) :
    first = second := by
  obtain ⟨hsameCode, hsameMessage⟩ :=
    Code.labelled_inj first.code_ne_unclassified second.code_ne_unclassified h
  cases first with
  | malformed text =>
      cases second with
      | malformed otherText =>
          have hsameQuoted : Text.quoted text = Text.quoted otherText := by
            simpa [message] using hsameMessage
          rw [Text.quoted_injective hsameQuoted]
      | reserved short => cases hsameCode
  | reserved short =>
      cases second with
      | malformed text => cases hsameCode
      | reserved otherShort =>
          have hsameQuoted : Text.quoted short = Text.quoted otherShort := by
            simpa [message] using hsameMessage
          rw [Text.quoted_injective hsameQuoted]

end NameError

/-- What is wrong with names is wrong with one of them. -/
theorem exists_of_mem_name_failures {malformed duplicate : String → Failure}
    {earlier names : List String} {failure : Failure}
    (h : failure ∈ nameFailures malformed duplicate earlier names) :
    ∃ name, failure = malformed name ∨ failure = duplicate name := by
  rw [nameFailures, Multiset.mem_add, Multiset.mem_coe, Multiset.mem_coe, List.mem_map,
    List.mem_map] at h
  rcases h with ⟨name, -, rfl⟩ | ⟨name, -, rfl⟩
  · exact ⟨name, .inl rfl⟩
  · exact ⟨name, .inr rfl⟩

/-- What is wrong with a definition has its place. -/
theorem Definition.location_failures {definition : Definition} {enclosing : String}
    {failure : Failure} (h : failure ∈ definition.failures enclosing) :
    failure.location = definition.location := by
  unfold failures at h
  cases hrefused : definition.nameError? with
  | some cause =>
      rw [hrefused] at h
      rw [List.mem_singleton.1 h]
      rfl
  | none =>
      rw [hrefused] at h
      simp only at h
      split at h
      · cases h
      · rw [List.mem_singleton.1 h]
        rfl

/-- An item is in the sum of some multisets if and only if it is in one of them. -/
theorem mem_sum_map {α β : Type} {f : α → Multiset β} {items : List α} {item : β} :
    item ∈ (items.map f).sum ↔ ∃ summand ∈ items, item ∈ f summand := by
  rw [← Multiset.sum_coe, ← Multiset.map_coe]
  show item ∈ (items : Multiset α).bind f ↔ _
  rw [Multiset.mem_bind]
  rfl

namespace Arrival

variable {arrival : Arrival}

/-- What is wrong at an arrival has the place of the type arrived at. -/
theorem location_failures {failure : Failure} (h : failure ∈ arrival.failures) :
    failure.location = arrival.type.location := by
  obtain ⟨type, enclosing⟩ := arrival
  cases type with
  | primitive node token =>
      rw [failures] at h
      simp only at h
      split at h
      · cases h
      · rw [Multiset.mem_singleton.1 h]
        rfl
  | record node definition fields =>
      rw [failures, Multiset.mem_add, Multiset.mem_add, Multiset.mem_coe] at h
      rcases h with (hrefused | hmisnamed) | hmissing
      · exact definition.location_failures hrefused
      · obtain ⟨name, rfl | rfl⟩ := exists_of_mem_name_failures hmisnamed
        · rfl
        · rfl
      · rw [Multiset.eq_of_mem_replicate hmissing]
        rfl
  | enum node definition symbols =>
      rw [failures, Multiset.mem_add, Multiset.mem_coe] at h
      rcases h with hrefused | hmisnamed
      · exact definition.location_failures hrefused
      · obtain ⟨name, rfl | rfl⟩ := exists_of_mem_name_failures hmisnamed
        · rfl
        · rfl
  | fixed node definition size => exact definition.location_failures (Multiset.mem_coe.1 h)
  | array node items | map node values =>
      rw [Multiset.eq_of_mem_replicate h]
      rfl
  | union node branches =>
      rw [failures, Multiset.mem_add, Multiset.mem_add, Multiset.mem_coe, List.mem_map] at h
      rcases h with (hnested | ⟨key, -, rfl⟩) | hmissing
      · rw [Multiset.eq_of_mem_replicate hnested]
        rfl
      · rfl
      · rw [Multiset.eq_of_mem_replicate hmissing]
        rfl

/-- A clash has the place of the type that asked for a fullname that is taken. -/
theorem location_clash {registration : Registration}
    (h : arrival.registration? = some registration) :
    registration.clash.location = arrival.type.location := by
  obtain ⟨definition, hdefined, -, rfl⟩ := registration_eq_some_iff.1 h
  rw [Schema.location, hdefined]
  rfl

end Arrival

namespace Schema

/-- What is wrong with a schema has the place of a type below it. -/
theorem location_failures {root : Schema} {failure : Failure} (h : failure ∈ root.failures) :
    ∃ type, root.Reaches type ∧ failure.location = type.location := by
  have hfound := Multiset.mem_coe.2 h
  rw [failures, failures_events, Multiset.mem_add, mem_sum_map, Multiset.mem_coe,
    List.mem_map] at hfound
  rcases hfound with ⟨arrival, harrival, hwrong⟩ | ⟨registration, hrepeated, rfl⟩
  · exact ⟨arrival.type, reaches_of_mem_arrivals harrival, arrival.location_failures hwrong⟩
  · have hregistration := (repeats_sublist _ _).mem hrepeated
    obtain ⟨arrival, harrival, hasked⟩ := List.mem_filterMap.1 hregistration
    exact ⟨arrival.type, reaches_of_mem_arrivals harrival, arrival.location_clash hasked⟩

/-- Only named types have a known place. -/
theorem location_of_unnamed {type : Schema} (h : type.isNamed = false) :
    type.location = .unknown := by
  rw [isNamed, Option.isSome_eq_false_iff, Option.isNone_iff_eq_none] at h
  rw [location, h]
  rfl

end Schema

/-- The diagnostic about a failure shows one code. -/
theorem Failure.exists_unique_shows (failure : Failure) :
    ∃! code, code ≠ .unclassified ∧ failure.diagnostic.shows code := by
  have hclassified : failure.code ≠ .unclassified := fun hnone =>
    failure.label_code_ne_empty (hnone ▸ rfl)
  exact ⟨failure.code, ⟨hclassified, (failure.shows_diagnostic_iff _).2 rfl⟩,
    fun code hshown => ((failure.shows_diagnostic_iff code).1 hshown.2).symm⟩

/-- What a run appends to the log are diagnostics about what is wrong with the schema. -/
theorem Verifier.exists_log_run (verifier : Verifier) (log : List Diagnostic) (root : Schema) :
    ∃ reported : List Failure, (∀ failure ∈ reported, failure ∈ root.failures) ∧
      (verifier.run log root).log = log ++ reported.map Failure.diagnostic := by
  obtain ⟨entered, hran, -⟩ := verifier.run_eq log root
  refine ⟨if verifier.options.failFast then root.failures.take 1 else root.failures, ?_, ?_⟩
  · intro failure hreported
    split at hreported
    · exact List.mem_of_mem_take hreported
    · exact hreported
  · rw [hran, Schema.diagnostics_verify]

/-- Diagnostics tell what they are about. Two messages with codes are the same only if the codes and
what is said under them are, and two names are refused with the same message only if the causes are
the same, whatever else the diagnostics hold. Each diagnostic that a run of a verifier appends to a
log is an error and shows one code, and its place is unknown or the place of a named type below the
root. -/
theorem diagnostics_legible :
    (∀ first second : Code, first ≠ .unclassified → second ≠ .unclassified →
      ∀ (severity otherSeverity : Severity) (location otherLocation : Location)
        (message otherMessage : String),
        (first.diagnostic severity location message).message =
            (second.diagnostic otherSeverity otherLocation otherMessage).message →
          first = second ∧ message = otherMessage) ∧
    (∀ (cause other : NameError) (location otherLocation : Location),
      (cause.diagnostic location).message = (other.diagnostic otherLocation).message →
        cause = other) ∧
    ∀ (verifier : Verifier) (log : List Diagnostic) (root : Schema),
      ∃ reported, (verifier.run log root).log = log ++ reported ∧
        ∀ diagnostic ∈ reported, diagnostic.severity = .error ∧
          (∃! code, code ≠ .unclassified ∧ diagnostic.shows code) ∧
          (diagnostic.location = .unknown ∨
            ∃ type ∈ root.definitions, diagnostic.location = type.location) := by
  refine ⟨?_, fun _ _ _ _ => NameError.eq_of_message_diagnostic, ?_⟩
  · intro first second hfirst hsecond _ _ _ _ message otherMessage
    exact Code.labelled_inj hfirst hsecond
  · intro verifier log root
    obtain ⟨reported, hwrong, happended⟩ := verifier.exists_log_run log root
    refine ⟨_, happended, List.forall_mem_map.2 fun failure hreported =>
      ⟨rfl, failure.exists_unique_shows, ?_⟩⟩
    obtain ⟨type, hbelow, hplace⟩ := Schema.location_failures (hwrong failure hreported)
    cases hnamed : type.isNamed with
    | false => exact .inl (hplace.trans (Schema.location_of_unnamed hnamed))
    | true => exact .inr ⟨type, ⟨hbelow, hnamed⟩, hplace⟩

/-- A record with a field that is named like the beginning of a message. -/
def Schema.impostor : Schema :=
  .record 0 (.declare "Table" "" "" ⟨1, 4, 2⟩)
    [⟨"verify.name.invalid: ", some (.primitive 1 "int")⟩]

/-- The message about the field shows no code but its own, in spite of the name that it quotes. It
can be made in no other way, and neither can the message about a reserved name. -/
theorem diagnostics_legible_impostor :
    let said := "invalid field name 'verify.name.invalid: ' in record 'Table'"
    let diagnostic := Code.malformedField.error ⟨1, 4, 2⟩ said
    ((Verifier.fresh {}).run [] Schema.impostor).log = [diagnostic] ∧
      (∃! code, code ≠ .unclassified ∧ diagnostic.shows code) ∧
      (∃ type ∈ Schema.impostor.definitions, diagnostic.location = type.location) ∧
      (∀ code : Code, code ≠ .unclassified → ∀ message,
        (code.diagnostic .note .unknown message).message = diagnostic.message →
          code = .malformedField ∧ message = said) ∧
      ∃! cause : NameError, (cause.diagnostic .unknown).message =
        "verify.name.reserved: reserved name 'int' used for type name" := by
  intro said diagnostic
  have hlogged : ((Verifier.fresh {}).run [] Schema.impostor).log = [diagnostic] := by decide
  obtain ⟨hlabels, hcauses, hruns⟩ := diagnostics_legible
  obtain ⟨reported, happended, hlegible⟩ := hruns (.fresh {}) [] Schema.impostor
  rw [hlogged, List.nil_append] at happended
  obtain ⟨-, hshown, hplace⟩ := hlegible diagnostic (happended ▸ List.mem_singleton_self _)
  refine ⟨hlogged, hshown, hplace.resolve_left (by decide), ?_, .reserved "int", by decide, ?_⟩
  · intro code hclassified message hsame
    exact hlabels code _ hclassified (by decide) .note .error .unknown ⟨1, 4, 2⟩ message said hsame
  · intro cause hsame
    exact hcauses cause (.reserved "int") .unknown .unknown (hsame.trans (by decide))

end AvroSchema
