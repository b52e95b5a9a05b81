import Mathlib.Data.List.Basic
import Mathlib.Tactic.SplitIfs
import AvroSchema.Proofs.DottedNames

/-!
# The language of dotted names

A text is taken here as the list of its codes, which may be those of characters or single bytes.
`Name.IsComponent` and `Name.IsJoined` describe simple and dotted names in codes, with no reference
to how they are recognised: a dotted name is one or more components joined by single dots, and a
component is `[A-Za-z_][A-Za-z0-9_]*`.

The main statement is that the dotted names are exactly the texts of this form, be they read by
characters or by bytes (`Name.is_dotted_exact`). It says also that a recogniser which takes one
component after the other off the end of a text accepts the same texts, though it never looks for
the first dot of a text but for the last.
-/

namespace AvroSchema

namespace Text

variable {α β : Type} [DecidableEq α] [DecidableEq β]

/-- Putting other letters for all letters of a text does not change where it is split. -/
theorem split_on_map {f : α → β} (hinjective : Function.Injective f) (separator : α)
    (text : List α) :
    (text.map f).splitOn (f separator) = (text.splitOn separator).map (List.map f) := by
  induction text with
  | nil => rfl
  | cons first rest ih =>
      rw [List.map_cons, List.splitOn_cons_eq_if_modifyHead, List.splitOn_cons_eq_if_modifyHead, ih]
      by_cases hsame : first = separator
      · rw [if_pos (by simpa using congrArg f hsame), if_pos (by simpa using hsame)]
        rfl
      · rw [if_neg (by simpa using mt (@hinjective _ _) hsame), if_neg (by simpa using hsame)]
        cases rest.splitOn separator with
        | nil => rfl
        | cons piece others => rfl

/-- All pieces of a text are of a kind that has no separators in it if and only if the text is
made of one or more pieces of that kind, joined by single separators. -/
theorem forall_mem_split_on_iff {separator : α} {holds : List α → Prop}
    (hapart : ∀ piece, holds piece → separator ∉ piece) (text : List α) :
    (∀ piece ∈ text.splitOn separator, holds piece) ↔
      ∃ pieces, pieces ≠ [] ∧ (∀ piece ∈ pieces, holds piece) ∧
        text = [separator].intercalate pieces := by
  constructor
  · intro h
    exact ⟨text.splitOn separator, List.splitOn_ne_nil separator text, h,
      (List.intercalate_splitOn separator).symm⟩
  · rintro ⟨pieces, hnonempty, h, rfl⟩
    rwa [List.splitOn_intercalate separator (fun piece hpiece => hapart piece (h piece hpiece))
      hnonempty]

/-- The codes of the characters of a text. -/
def codes (text : String) : List Nat :=
  text.toList.map Char.toNat

/-- The text that has a character for each byte, with the code of the byte. -/
def ofBytes (bytes : List UInt8) : String :=
  String.ofList (bytes.map fun byte => Char.ofNat byte.toNat)

/-- The bytes of a text in UTF-8. -/
def bytes (text : String) : List UInt8 :=
  text.toUTF8.data.toList

/-- A byte is the code of a character. -/
theorem to_nat_of_byte (byte : UInt8) : (Char.ofNat byte.toNat).toNat = byte.toNat := by
  have hsmall : byte.toNat < 256 := byte.toNat_lt
  rw [Char.ofNat, dif_pos (Or.inl (by omega))]
  rfl

/-- The codes in a text made of bytes are the bytes. -/
theorem codes_of_bytes (bytes : List UInt8) : codes (ofBytes bytes) = bytes.map UInt8.toNat := by
  rw [codes, ofBytes, String.toList_ofList, List.map_map]
  exact List.map_congr_left fun byte _ => to_nat_of_byte byte

/-- The bytes of a text are those of its characters. -/
theorem bytes_eq_flat_map (text : String) :
    bytes text = text.toList.flatMap String.utf8EncodeChar := by
  rw [bytes, String.toUTF8, ← String.utf8Encode_toList, List.utf8Encode, List.data_toByteArray]

/-- An ASCII character has its code as its only byte. -/
theorem utf8_encode_char_of_lt {c : Char} (hascii : c.toNat < 128) :
    (String.utf8EncodeChar c).map UInt8.toNat = [c.toNat] := by
  have hsingle : String.utf8EncodeChar c = [UInt8.ofNat c.toNat] :=
    if_pos (Nat.le_of_lt_succ hascii)
  rw [hsingle, List.map_cons, List.map_nil, UInt8.toNat_ofNat', Nat.mod_eq_of_lt (by omega)]

/-- The bytes of any other character are no codes of ASCII characters. -/
theorem le_of_mem_utf8_encode_char {c : Char} (hother : 128 ≤ c.toNat) :
    ∀ byte ∈ String.utf8EncodeChar c, 128 ≤ byte.toNat := by
  have hlarge : ¬ c.val.toNat ≤ 127 := Nat.not_le_of_lt hother
  rw [String.utf8EncodeChar]
  simp only [if_neg hlarge]
  split_ifs
  all_goals
    simp only [List.forall_mem_cons, UInt8.toNat_ofNat', List.not_mem_nil, false_imp_iff,
      implies_true, and_true]
    omega

/-- An ASCII text has the same codes whether it is read by characters or by bytes. -/
theorem codes_of_bytes_bytes {text : String} (hascii : ∀ c ∈ text.toList, c.toNat < 128) :
    codes (ofBytes (bytes text)) = codes text := by
  rw [codes_of_bytes, bytes_eq_flat_map, List.map_flatMap, codes, List.map_eq_flatMap]
  exact List.flatMap_congr fun c hchar => utf8_encode_char_of_lt (hascii c hchar)

end Text

namespace Name

/-- The codes of ASCII letters and of the underscore: `[A-Za-z_]`. -/
def StartsComponent (code : Nat) : Prop :=
  'A'.toNat ≤ code ∧ code ≤ 'Z'.toNat ∨ 'a'.toNat ≤ code ∧ code ≤ 'z'.toNat ∨ code = '_'.toNat

/-- The codes of ASCII letters, ASCII digits and the underscore: `[A-Za-z0-9_]`. -/
def ContinuesComponent (code : Nat) : Prop :=
  StartsComponent code ∨ '0'.toNat ≤ code ∧ code ≤ '9'.toNat

/-- A component of a dotted name: `[A-Za-z_][A-Za-z0-9_]*`. -/
inductive IsComponent : List Nat → Prop where
  | intro {first : Nat} {rest : List Nat} : StartsComponent first →
      (∀ code ∈ rest, ContinuesComponent code) → IsComponent (first :: rest)

/-- One or more components joined by single dots. -/
def IsJoined (codes : List Nat) : Prop :=
  ∃ components, components ≠ [] ∧ (∀ component ∈ components, IsComponent component) ∧
    codes = ['.'.toNat].intercalate components

/-- A character lies between two others if and only if its code lies between theirs. -/
theorem between_iff (low high c : Char) :
    (decide (c.val ≥ low.val) && decide (c.val ≤ high.val)) = true ↔
      low.toNat ≤ c.toNat ∧ c.toNat ≤ high.toNat := by
  rw [Bool.and_eq_true, decide_eq_true_iff, decide_eq_true_iff]
  rfl

/-- A character starts a simple name if and only if its code starts a component. -/
theorem starts_name_iff (c : Char) : startsName c ↔ StartsComponent c.toNat := by
  have hupper : c.isUpper ↔ 'A'.toNat ≤ c.toNat ∧ c.toNat ≤ 'Z'.toNat := decide_eq_true_iff
  have hlower : c.isLower ↔ 'a'.toNat ≤ c.toNat ∧ c.toNat ≤ 'z'.toNat := between_iff 'a' 'z' c
  have hunderscore : c = '_' ↔ c.toNat = '_'.toNat := Char.toNat_inj.symm
  show (c.isUpper || c.isLower || c == '_') = true ↔ _
  rw [Bool.or_eq_true, Bool.or_eq_true, hupper, hlower, beq_iff_eq, hunderscore, or_assoc,
    StartsComponent]

/-- A character continues a simple name if and only if its code continues a component. -/
theorem continues_name_iff (c : Char) : continuesName c ↔ ContinuesComponent c.toNat := by
  have hdigit : c.isDigit ↔ '0'.toNat ≤ c.toNat ∧ c.toNat ≤ '9'.toNat := between_iff '0' '9' c
  rw [continuesName, Bool.or_eq_true, starts_name_iff, hdigit, ContinuesComponent]

/-- Characters spell a simple name if and only if their codes are a component. -/
theorem spells_simple_iff (text : List Char) :
    spellsSimple text ↔ IsComponent (text.map Char.toNat) := by
  cases text with
  | nil =>
      constructor
      · exact nofun
      · exact nofun
  | cons first rest =>
      have hcontinues_iff : rest.all continuesName ↔
          ∀ code ∈ rest.map Char.toNat, ContinuesComponent code := by
        simp only [List.all_eq_true, continues_name_iff, List.forall_mem_map]
      rw [spellsSimple, Bool.and_eq_true, starts_name_iff, hcontinues_iff, List.map_cons]
      constructor
      · rintro ⟨hstarts, hcontinues⟩
        exact .intro hstarts hcontinues
      · rintro ⟨hstarts, hcontinues⟩
        exact ⟨hstarts, hcontinues⟩

/-- The codes of a component are codes of ASCII letters, digits and underscores. -/
theorem ContinuesComponent.bounds {code : Nat} (h : ContinuesComponent code) :
    '.'.toNat < code ∧ code < 128 := by
  simp [ContinuesComponent, StartsComponent] at h ⊢
  omega

/-- No component has a dot in it. -/
theorem IsComponent.dot_not_mem {component : List Nat} (h : IsComponent component) :
    '.'.toNat ∉ component := by
  obtain ⟨hstarts, hcontinues⟩ := h
  intro hdot
  rcases List.mem_cons.1 hdot with hfirst | hlater
  · have hbounds := ContinuesComponent.bounds (.inl hstarts)
    omega
  · have hbounds := (hcontinues _ hlater).bounds
    omega

/-- A text is a dotted name if and only if its codes are components joined by dots. -/
theorem is_dotted_iff_is_joined (text : String) : isDotted text ↔ IsJoined (Text.codes text) := by
  have hpieces_iff : isDotted text ↔
      ∀ piece ∈ (Text.codes text).splitOn '.'.toNat, IsComponent piece := by
    rw [Text.codes, Text.split_on_map (fun _ _ => Char.toNat_inj.1), isDotted, List.all_eq_true]
    simp only [List.forall_mem_map, spells_simple_iff]
  rw [hpieces_iff]
  exact Text.forall_mem_split_on_iff (fun _ hcomponent => hcomponent.dot_not_mem) _

/-- A character that is not ASCII is foreign to names. -/
theorem is_foreign_of_le {c : Char} (hother : 128 ≤ c.toNat) : IsForeign c := by
  constructor
  · rintro rfl
    exact absurd hother (by decide)
  · rw [Bool.eq_false_iff, ne_eq, continues_name_iff]
    intro hcontinues
    have hbounds := hcontinues.bounds
    omega

/-- A dotted name may be recognised by its characters or by its bytes in UTF-8. -/
theorem is_dotted_of_bytes_bytes (text : String) :
    isDotted (Text.ofBytes (Text.bytes text)) = isDotted text := by
  by_cases hascii : ∀ c ∈ text.toList, c.toNat < 128
  · rw [Bool.eq_iff_iff, is_dotted_iff_is_joined, is_dotted_iff_is_joined,
      Text.codes_of_bytes_bytes hascii]
  · -- The text has a character that is foreign to names, and so has the text of its bytes.
    obtain ⟨c, hchar, hother⟩ : ∃ c ∈ text.toList, 128 ≤ c.toNat := by
      simpa using hascii
    have hnotDotted : isDotted text = false := by
      rw [Bool.eq_false_iff]
      exact fun hdotted => not_mem_of_is_dotted hdotted (is_foreign_of_le hother) hchar
    obtain ⟨byte, hbyte⟩ := List.exists_mem_of_ne_nil _ (String.utf8EncodeChar_ne_nil (c := c))
    have hinBytes : byte ∈ Text.bytes text := by
      rw [Text.bytes_eq_flat_map]
      exact List.mem_flatMap.2 ⟨c, hchar, hbyte⟩
    have hotherByte : 128 ≤ (Char.ofNat byte.toNat).toNat := by
      rw [Text.to_nat_of_byte]
      exact Text.le_of_mem_utf8_encode_char hother byte hbyte
    rw [hnotDotted, Bool.eq_false_iff]
    intro hdotted
    refine not_mem_of_is_dotted hdotted (is_foreign_of_le hotherByte) ?_
    rw [Text.ofBytes, String.toList_ofList]
    exact List.mem_map_of_mem hinBytes

/-- Recognise a text by its last component and by what stands in front of the last dot. -/
def peel (recognises : String → Bool) (text : String) : Bool :=
  match QualifiedName.ofDotted? text with
  | none => isSimple text
  | some name => isSimple name.short && recognises name.ns

/-- Without a dot, dotted names are simple names. -/
theorem is_dotted_eq_is_simple {text : String} (h : '.' ∉ text.toList) :
    isDotted text = isSimple text := by
  rw [isDotted, isSimple, List.splitOn_eq_singleton h, List.all_cons, List.all_nil, Bool.and_true]

/-- A dotted name ends in a simple name, and what stands in front of it is a dotted name. -/
theorem is_dotted_eq_peel (text : String) : isDotted text = peel isDotted text := by
  unfold peel
  cases hcut : QualifiedName.ofDotted? text with
  | none => exact is_dotted_eq_is_simple (QualifiedName.of_dotted_eq_none_iff.1 hcut)
  | some name =>
      have hsimple : '.' ∉ name.short.toList := QualifiedName.dot_not_mem_short_of_dotted hcut
      rw [QualifiedName.eq_append_of_dotted hcut, is_dotted_append, is_dotted_eq_is_simple hsimple,
        Bool.and_comm]

/-- There is no other way to recognise texts by their last components than to recognise dotted
names. -/
theorem eq_is_dotted_of_eq_peel {recognises : String → Bool}
    (h : ∀ text, recognises text = peel recognises text) (text : String) :
    recognises text = isDotted text := by
  rw [h, is_dotted_eq_peel, peel, peel]
  cases hcut : QualifiedName.ofDotted? text with
  | none => rfl
  | some name =>
      have hshorter : name.ns.length < text.length := by
        rw [QualifiedName.eq_append_of_dotted hcut, String.length_append, String.length_append]
        exact Nat.lt_add_right _ (Nat.lt_succ_self _)
      exact congrArg (isSimple name.short && ·) (eq_is_dotted_of_eq_peel h name.ns)
termination_by text.length

/-- Dotted names are recognised exactly. A recogniser that takes a text for a dotted name if its
last component is a simple name and the rest in front of the last dot is recognised is the one for
dotted names, and no other. It accepts one or more components joined by single dots, where a
component is `[A-Za-z_][A-Za-z0-9_]*`, whatever bytes a text is made of, and it makes no difference
whether a text is read by its characters or by its bytes in UTF-8. So two texts joined by a dot are
a dotted name if and only if both are, and without a dot, dotted names are simple names. -/
theorem is_dotted_exact :
    (∀ recognises : String → Bool,
      (∀ text, recognises text = peel recognises text) ↔ recognises = isDotted) ∧
    (∀ text, isDotted text ↔ IsJoined (Text.codes text)) ∧
    (∀ bytes, isDotted (Text.ofBytes bytes) ↔ IsJoined (bytes.map UInt8.toNat)) ∧
    (∀ text, isDotted (Text.ofBytes (Text.bytes text)) = isDotted text) ∧
    (∀ first second, isDotted (first ++ "." ++ second) ↔ isDotted first ∧ isDotted second) ∧
    ∀ text, '.' ∉ text.toList → isDotted text = isSimple text := by
  refine ⟨?_, is_dotted_iff_is_joined, ?_, is_dotted_of_bytes_bytes, ?_,
    fun text h => is_dotted_eq_is_simple h⟩
  · intro recognises
    constructor
    · exact fun h => funext (eq_is_dotted_of_eq_peel h)
    · rintro rfl
      exact is_dotted_eq_peel
  · intro bytes
    rw [is_dotted_iff_is_joined, Text.codes_of_bytes]
  · intro first second
    rw [is_dotted_append, Bool.and_eq_true]

/-- A text with a letter that is not ASCII, and one with a null character, have no dot. -/
theorem is_dotted_exact_undotted :
    ('.' ∉ "caf\u00e9".toList ∧ isDotted "caf\u00e9" = isSimple "caf\u00e9") ∧
      '.' ∉ "a\u0000".toList ∧ isDotted "a\u0000" = isSimple "a\u0000" := by
  obtain ⟨-, -, -, -, -, hundotted⟩ := is_dotted_exact
  refine ⟨⟨?_, hundotted _ ?_⟩, ?_, hundotted _ ?_⟩
  all_goals decide

end Name

end AvroSchema
