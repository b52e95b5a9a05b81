import Mathlib.Tactic.SplitIfs
import AvroSchema.Schema.Naming

/-!
# Dotted names under cutting and joining

Joining two texts by a dot gives a dotted name if and only if both texts are dotted names
(`Name.is_dotted_append`). So a dotted name resolves to a dotted fullname in a namespace that is
empty or dotted, provided that the namespaces it may be resolved with are
(`QualifiedName.is_dotted_fullname_resolve`, `QualifiedName.is_namespace_ns_resolve`). Cutting the
fullname undoes the joining (`QualifiedName.of_dotted_fullname`). A dotted name has no characters
but dots and those of simple names (`Name.not_mem_of_is_dotted`). A definition has acceptable names
if its texts are dotted names and its short name is not reserved, in whatever namespace it is
reached (`Definition.name_error_eq_none_iff`).
-/

namespace AvroSchema

namespace Name

/-- A namespace is empty or a dotted name. -/
def IsNamespace (ns : String) : Prop :=
  ns = "" ∨ isDotted ns

/-- The last of the pieces between the dots of a text. -/
def lastPiece (text : String) : String :=
  String.ofList ((text.toList.splitOn '.').getLastD [])

/-- A text without a dot is its own last piece. -/
theorem last_piece_of_undotted {text : String} (hundotted : '.' ∉ text.toList) :
    lastPiece text = text := by
  rw [lastPiece, List.splitOn_eq_singleton hundotted]
  simp

/-- The last piece of a text is what stands behind its last dot. -/
theorem last_piece_append (before : String) {after : String} (hundotted : '.' ∉ after.toList) :
    lastPiece (before ++ "." ++ after) = after := by
  have hspelled : (before ++ "." ++ after).toList = before.toList ++ '.' :: after.toList := by simp
  rw [lastPiece, hspelled, List.splitOn_append_cons_self, List.splitOn_eq_singleton hundotted]
  simp

/-- Two texts joined by a dot are a dotted name if and only if both are. -/
theorem is_dotted_append (first second : String) :
    isDotted (first ++ "." ++ second) = (isDotted first && isDotted second) := by
  have hspelled : (first ++ "." ++ second).toList = first.toList ++ '.' :: second.toList := by simp
  rw [isDotted, hspelled, List.splitOn_append_cons_self, List.all_append]
  rfl

/-- What holds of all characters in the pieces of a text holds of all its characters but the
separators. -/
theorem forall_mem_of_split_on {separator : Char} {holds : Char → Prop} {text : List Char}
    (hpieces : ∀ piece ∈ text.splitOn separator, ∀ c ∈ piece, holds c) :
    ∀ c ∈ text, c = separator ∨ holds c := by
  induction text with
  | nil => exact nofun
  | cons first rest ih =>
      rw [List.splitOn_cons_eq_if_modifyHead] at hpieces
      by_cases h : first = separator
      · rw [if_pos (by simpa using h)] at hpieces
        exact List.forall_mem_cons.2 ⟨.inl h, ih (List.forall_mem_cons.1 hpieces).2⟩
      · rw [if_neg (by simpa using h)] at hpieces
        -- The first character belongs to the same piece as the one that follows it.
        cases hcut : rest.splitOn separator with
        | nil => exact absurd hcut (List.splitOn_ne_nil separator rest)
        | cons piece others =>
            rw [hcut, List.modifyHead_cons, List.forall_mem_cons, List.forall_mem_cons] at hpieces
            obtain ⟨⟨hholdsFirst, hholdsPiece⟩, hholdsOthers⟩ := hpieces
            refine List.forall_mem_cons.2 ⟨.inr hholdsFirst, ih ?_⟩
            rw [hcut]
            exact List.forall_mem_cons.2 ⟨hholdsPiece, hholdsOthers⟩

/-- Every character of a simple name may stand behind its first one. -/
theorem continues_name_of_spells_simple {text : List Char} (h : spellsSimple text) :
    ∀ c ∈ text, continuesName c := by
  cases text with
  | nil => cases h
  | cons first rest =>
      rw [spellsSimple, Bool.and_eq_true, List.all_eq_true] at h
      refine List.forall_mem_cons.2 ⟨?_, h.2⟩
      rw [continuesName, h.1, Bool.true_or]

/-- A character is foreign to names if it is no dot and cannot stand in a simple name. -/
def IsForeign (c : Char) : Prop :=
  c ≠ '.' ∧ continuesName c = false

/-- Which characters are foreign to names can be decided. -/
instance (c : Char) : Decidable (IsForeign c) :=
  inferInstanceAs (Decidable (c ≠ '.' ∧ continuesName c = false))

/-- No dotted name has a foreign character. -/
theorem not_mem_of_is_dotted {text : String} (hdotted : isDotted text) {c : Char}
    (hforeign : IsForeign c) : c ∉ text.toList := by
  intro h
  have hsimple : ∀ piece ∈ text.toList.splitOn '.', ∀ c ∈ piece, continuesName c := fun piece h =>
    continues_name_of_spells_simple (List.all_eq_true.1 hdotted piece h)
  rcases forall_mem_of_split_on hsimple c h with rfl | hcontinues
  · exact hforeign.1 rfl
  · rw [hforeign.2] at hcontinues
    cases hcontinues

/-- No namespace has a foreign character. -/
theorem not_mem_of_is_namespace {text : String} (hnamespaced : IsNamespace text) {c : Char}
    (hforeign : IsForeign c) : c ∉ text.toList := by
  rcases hnamespaced with rfl | hdotted
  · exact List.not_mem_nil
  · exact not_mem_of_is_dotted hdotted hforeign

end Name

namespace QualifiedName

/-- A dotted text is its namespace and its short name, joined by a dot. -/
theorem eq_append_of_dotted {text : String} {name : QualifiedName}
    (h : ofDotted? text = some name) : text = name.ns ++ "." ++ name.short := by
  obtain ⟨⟨before, after⟩, hcut, rfl⟩ := Option.map_eq_some_iff.1 h
  have hjoined := (Text.eq_append_of_split_last hcut).1
  apply String.toList_injective
  simp [hjoined]

/-- In front of the last dot of a dotted name there is something. -/
theorem ns_ne_empty_of_is_dotted {text : String} {name : QualifiedName}
    (hcut : ofDotted? text = some name) (hdotted : Name.isDotted text) : name.ns ≠ "" := by
  intro hempty
  rw [eq_append_of_dotted hcut, Name.is_dotted_append, Bool.and_eq_true, hempty] at hdotted
  exact absurd hdotted.1 (by decide)

/-- A name that qualifies itself does not depend on any namespace. -/
theorem resolve_of_dotted {text : String} {name : QualifiedName}
    (h : ofDotted? text = some name) (ns enclosing : String) :
    resolve text ns enclosing = name := by
  rw [resolve, h, Option.getD_some]

/-- A name without a dot stands in its explicit or else in the enclosing namespace. -/
theorem resolve_of_simple {text : String} (h : ofDotted? text = none) (ns enclosing : String) :
    resolve text ns enclosing = ⟨text, if ns = "" then enclosing else ns⟩ := by
  rw [resolve, h, Option.getD_none]

/-- The short name has nothing to do with the namespaces. -/
theorem short_resolve (text ns enclosing other : String) :
    (resolve text ns enclosing).short = (resolve text ns other).short := by
  cases h : ofDotted? text with
  | none => rw [resolve_of_simple h, resolve_of_simple h]
  | some name => rw [resolve_of_dotted h, resolve_of_dotted h]

/-- A text is not qualified if and only if it has no dot. -/
theorem of_dotted_eq_none_iff {text : String} : ofDotted? text = none ↔ '.' ∉ text.toList := by
  rw [ofDotted?, Option.map_eq_none_iff, Text.split_last_eq_none_iff]

/-- Behind the last dot of a text there is no other. -/
theorem dot_not_mem_short_of_dotted {text : String} {name : QualifiedName}
    (h : ofDotted? text = some name) : '.' ∉ name.short.toList := by
  obtain ⟨⟨before, after⟩, hcut, rfl⟩ := Option.map_eq_some_iff.1 h
  simpa using (Text.eq_append_of_split_last hcut).2

/-- The short name that a text is resolved to has no dot. -/
theorem dot_not_mem_short_resolve (text ns enclosing : String) :
    '.' ∉ (resolve text ns enclosing).short.toList := by
  cases h : ofDotted? text with
  | none =>
      rw [resolve_of_simple h]
      exact of_dotted_eq_none_iff.1 h
  | some name =>
      rw [resolve_of_dotted h]
      exact dot_not_mem_short_of_dotted h

/-- A fullname is cut into the short name and the namespace that it was made of, if the short name
has no dot and the namespace is not empty. -/
theorem of_dotted_fullname {name : QualifiedName} (hsimple : '.' ∉ name.short.toList)
    (hqualified : name.ns ≠ "") : ofDotted? name.fullname = some name := by
  have hspelled : name.fullname.toList = name.ns.toList ++ '.' :: name.short.toList := by
    simp [fullname, hqualified]
  simp [ofDotted?, hspelled, Text.split_last_append hsimple]

/-- In the empty namespace, a fullname is the short name. -/
theorem fullname_of_ns_eq_empty {name : QualifiedName} (h : name.ns = "") :
    name.fullname = name.short :=
  if_pos h

/-- The last piece of a fullname is the short name that it was made of, if that has no dot. -/
theorem last_piece_fullname {name : QualifiedName} (hsimple : '.' ∉ name.short.toList) :
    Name.lastPiece name.fullname = name.short := by
  by_cases h : name.ns = ""
  · rw [fullname_of_ns_eq_empty h]
    exact Name.last_piece_of_undotted hsimple
  · rw [fullname, if_neg h]
    exact Name.last_piece_append name.ns hsimple

variable {text ns enclosing : String}

/-- A dotted name is resolved to a name in a namespace. -/
theorem is_namespace_ns_resolve (hdotted : Name.isDotted text) (hexplicit : Name.IsNamespace ns)
    (hinherited : Name.IsNamespace enclosing) :
    Name.IsNamespace (resolve text ns enclosing).ns := by
  cases h : ofDotted? text with
  | none =>
      rw [resolve_of_simple h]
      show Name.IsNamespace (if ns = "" then enclosing else ns)
      split
      · exact hinherited
      · exact hexplicit
  | some name =>
      rw [eq_append_of_dotted h, Name.is_dotted_append, Bool.and_eq_true] at hdotted
      rw [resolve_of_dotted h]
      exact .inr hdotted.1

/-- A dotted name is resolved to a short name that is one as well. -/
theorem is_dotted_short_resolve (hdotted : Name.isDotted text) (ns enclosing : String) :
    Name.isDotted (resolve text ns enclosing).short := by
  cases h : ofDotted? text with
  | none =>
      rw [resolve_of_simple h]
      exact hdotted
  | some name =>
      rw [eq_append_of_dotted h, Name.is_dotted_append, Bool.and_eq_true] at hdotted
      rw [resolve_of_dotted h]
      exact hdotted.2

/-- A dotted name is resolved to a dotted fullname. -/
theorem is_dotted_fullname_resolve (hdotted : Name.isDotted text) (hexplicit : Name.IsNamespace ns)
    (hinherited : Name.IsNamespace enclosing) :
    Name.isDotted (resolve text ns enclosing).fullname := by
  have hwithin := is_namespace_ns_resolve hdotted hexplicit hinherited
  have hshort := is_dotted_short_resolve hdotted ns enclosing
  unfold fullname
  split
  · exact hshort
  · next hqualified =>
      rw [Name.is_dotted_append, Bool.and_eq_true]
      exact ⟨hwithin.resolve_left hqualified, hshort⟩

end QualifiedName

/-- The names of a definition are acceptable if and only if its name and its fullname are dotted
names, its explicit namespace is one if there is any, and its short name is not reserved. -/
theorem Definition.name_error_eq_none_iff (definition : Definition) (enclosing : String) :
    definition.nameError? = none ↔
      Name.isDotted definition.name ∧ Name.IsNamespace definition.ns ∧
        Name.isDotted definition.fullname ∧
          ¬ Name.isReserved (definition.resolve enclosing).short := by
  have hsameShort : (definition.resolve "").short = (definition.resolve enclosing).short :=
    QualifiedName.short_resolve _ _ _ _
  rw [nameError?, ← hsameShort, Name.IsNamespace, Decidable.or_iff_not_imp_left]
  split_ifs <;> simp_all

end AvroSchema
