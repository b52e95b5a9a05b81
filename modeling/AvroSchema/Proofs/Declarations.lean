import AvroSchema.Proofs.DottedNames
import AvroSchema.Proofs.Registrations

/-!
# The names of declared definitions

A definition that is declared inside an enclosing namespace records the fullname that it resolves to
there, so all three texts that are checked come from what it was declared with. If the name and the
explicit namespace are grammatical, the recorded fullname is a dotted name unless the name takes a
malformed namespace from around it (`Definition.is_dotted_fullname_declare_iff`). The main statement
tells from the texts of a declaration whether its names are accepted, and for which cause they are
refused (`Schema.name_error_declared`).
-/

namespace AvroSchema

namespace QualifiedName

variable {text ns enclosing : String}

/-- The short name that a text is resolved to is the last of its pieces. -/
theorem short_resolve_eq_last_piece (text ns enclosing : String) :
    (resolve text ns enclosing).short = Name.lastPiece text := by
  cases hcut : ofDotted? text with
  | none =>
      rw [resolve_of_simple hcut]
      exact (Name.last_piece_of_undotted (of_dotted_eq_none_iff.1 hcut)).symm
  | some name =>
      rw [resolve_of_dotted hcut, eq_append_of_dotted hcut]
      exact (Name.last_piece_append name.ns (dot_not_mem_short_of_dotted hcut)).symm

/-- A dotted name is resolved to a dotted fullname if and only if it is resolved in a namespace. -/
theorem is_dotted_fullname_resolve_iff (hdotted : Name.isDotted text) (ns enclosing : String) :
    Name.isDotted (resolve text ns enclosing).fullname ↔
      Name.IsNamespace (resolve text ns enclosing).ns := by
  have hshort := is_dotted_short_resolve hdotted ns enclosing
  rw [Name.IsNamespace, fullname]
  by_cases hunqualified : (resolve text ns enclosing).ns = ""
  · simp [hunqualified, hshort]
  · simp [hunqualified, Name.is_dotted_append, hshort]

end QualifiedName

namespace Definition

variable {name ns enclosing : String}

/-- A name without a dot that is declared without a namespace takes the one around it. -/
theorem fullname_declare_of_inherited (hundotted : '.' ∉ name.toList) (hinherited : enclosing ≠ "")
    (location : Location) :
    (declare name "" enclosing location).fullname = enclosing ++ "." ++ name := by
  rw [declare, QualifiedName.resolve_of_simple (QualifiedName.of_dotted_eq_none_iff.2 hundotted),
    if_pos rfl, QualifiedName.fullname, if_neg hinherited]

/-- Of a declaration with a grammatical name and namespace, the fullname is a dotted name if and
only if the name is dotted, or has a namespace, or is declared in one. -/
theorem is_dotted_fullname_declare_iff (hdotted : Name.isDotted name)
    (hexplicit : Name.IsNamespace ns) (enclosing : String) (location : Location) :
    Name.isDotted (declare name ns enclosing location).fullname ↔
      '.' ∈ name.toList ∨ ns ≠ "" ∨ Name.IsNamespace enclosing := by
  rw [declare, QualifiedName.is_dotted_fullname_resolve_iff hdotted]
  cases hcut : QualifiedName.ofDotted? name with
  | some qualified =>
      have hdot : '.' ∈ name.toList := by
        by_contra hundotted
        rw [QualifiedName.of_dotted_eq_none_iff.2 hundotted] at hcut
        cases hcut
      have hnamespaced : Name.IsNamespace qualified.ns := by
        rw [QualifiedName.eq_append_of_dotted hcut, Name.is_dotted_append,
          Bool.and_eq_true] at hdotted
        exact .inr hdotted.1
      rw [QualifiedName.resolve_of_dotted hcut]
      exact iff_of_true hnamespaced (.inl hdot)
  | none =>
      have hundotted : '.' ∉ name.toList := QualifiedName.of_dotted_eq_none_iff.1 hcut
      rw [QualifiedName.resolve_of_simple hcut, or_iff_right hundotted]
      show Name.IsNamespace (if ns = "" then enclosing else ns) ↔ _
      by_cases h : ns = ""
      · simp [h]
      · rw [if_neg h]
        exact iff_of_true hexplicit (.inl h)

/-- The names of a declaration are accepted if and only if its name is a dotted name, its explicit
namespace is one if there is any, the name does not take a malformed namespace from around it, and
its last piece is not reserved. -/
theorem name_error_declare_eq_none_iff (name ns enclosing : String) (location : Location) :
    (declare name ns enclosing location).nameError? = none ↔
      Name.isDotted name ∧ Name.IsNamespace ns ∧
        ('.' ∈ name.toList ∨ ns ≠ "" ∨ Name.IsNamespace enclosing) ∧
          ¬ Name.isReserved (Name.lastPiece name) := by
  have hlastPiece : ((declare name ns enclosing location).resolve enclosing).short =
      Name.lastPiece name :=
    QualifiedName.short_resolve_eq_last_piece name ns enclosing
  rw [name_error_eq_none_iff _ enclosing, hlastPiece]
  refine and_congr_right fun (hdotted : Name.isDotted name) =>
    and_congr_right fun (hexplicit : Name.IsNamespace ns) => ?_
  rw [is_dotted_fullname_declare_iff hdotted hexplicit]

/-- The cause for which a declaration is refused is told by its texts. -/
theorem name_error_declare (name ns enclosing : String) (location : Location) :
    (declare name ns enclosing location).nameError? =
      if ¬ Name.isDotted name then some (.malformed name)
      else if ns ≠ "" ∧ ¬ Name.isDotted ns then some (.malformed ns)
      else if '.' ∉ name.toList ∧ ns = "" ∧ enclosing ≠ "" ∧ ¬ Name.isDotted enclosing then
        some (.malformed (enclosing ++ "." ++ name))
      else if Name.isReserved (Name.lastPiece name) then
        some (.reserved (Name.lastPiece name))
      else none := by
  have hlastPiece : ((declare name ns enclosing location).resolve "").short =
      Name.lastPiece name :=
    QualifiedName.short_resolve_eq_last_piece name ns ""
  rw [nameError?, hlastPiece]
  by_cases hdotted : Name.isDotted name
  · rw [if_neg (not_not_intro hdotted), if_neg (by simpa [declare] using hdotted)]
    by_cases hmalformedNs : ns ≠ "" ∧ ¬ Name.isDotted ns
    · rw [if_pos hmalformedNs, if_pos (by simpa [declare] using hmalformedNs)]
      rfl
    · have hexplicit : Name.IsNamespace ns := by
        rwa [Name.IsNamespace, or_iff_not_imp_left, ← not_and_not_right]
      have hrefused_iff : ¬ Name.isDotted (declare name ns enclosing location).fullname ↔
          '.' ∉ name.toList ∧ ns = "" ∧ enclosing ≠ "" ∧ ¬ Name.isDotted enclosing := by
        rw [is_dotted_fullname_declare_iff hdotted hexplicit, Name.IsNamespace]
        simp only [not_or, not_ne_iff, ne_eq]
      rw [if_neg hmalformedNs, if_neg (by simpa [declare] using hmalformedNs)]
      by_cases hinherited :
          '.' ∉ name.toList ∧ ns = "" ∧ enclosing ≠ "" ∧ ¬ Name.isDotted enclosing
      · rw [if_pos hinherited, if_pos (by simpa using hrefused_iff.2 hinherited)]
        obtain ⟨hundotted, rfl, hstanding, -⟩ := hinherited
        rw [fullname_declare_of_inherited hundotted hstanding]
      · rw [if_neg hinherited, if_neg (by simpa using mt hrefused_iff.1 hinherited)]
  · rw [if_pos hdotted, if_pos (by simpa [declare] using hdotted)]
    rfl

end Definition

namespace Schema

/-- Whether the names of a record, an enum or a fixed are accepted that is declared inside an
enclosing namespace, and for which cause they are refused, is told by the texts of its declaration
alone. The recorded fullname is never the cause unless the name takes a malformed namespace from
around it. -/
theorem name_error_declared (name ns enclosing : String) (location : Location) (node : NodeId)
    (fields : List Field) (symbols : List String) (size : Nat) :
    ∀ type ∈ [record node (.declare name ns enclosing location) fields,
        enum node (.declare name ns enclosing location) symbols,
        fixed node (.declare name ns enclosing location) size],
      (type.nameError? = none ↔
        Name.isDotted name ∧ Name.IsNamespace ns ∧
          ('.' ∈ name.toList ∨ ns ≠ "" ∨ Name.IsNamespace enclosing) ∧
            ¬ Name.isReserved (Name.lastPiece name)) ∧
      (type.nameError? =
        if ¬ Name.isDotted name then some (.malformed name)
        else if ns ≠ "" ∧ ¬ Name.isDotted ns then some (.malformed ns)
        else if '.' ∉ name.toList ∧ ns = "" ∧ enclosing ≠ "" ∧ ¬ Name.isDotted enclosing then
          some (.malformed (enclosing ++ "." ++ name))
        else if Name.isReserved (Name.lastPiece name) then
          some (.reserved (Name.lastPiece name))
        else none) ∧
      (Name.isDotted name → Name.IsNamespace ns →
        (Name.isDotted type.fullname ↔
          '.' ∈ name.toList ∨ ns ≠ "" ∨ Name.IsNamespace enclosing)) := by
  intro type htype
  have hdefinition : type.definition? = some (.declare name ns enclosing location) := by
    simp only [List.mem_cons, List.not_mem_nil, or_false] at htype
    rcases htype with rfl | rfl | rfl
    · rfl
    · rfl
    · rfl
  rw [name_error_of_definition hdefinition, fullname_of_definition hdefinition]
  exact ⟨Definition.name_error_declare_eq_none_iff name ns enclosing location,
    Definition.name_error_declare name ns enclosing location,
    fun hdotted hexplicit =>
      Definition.is_dotted_fullname_declare_iff hdotted hexplicit enclosing location⟩

/-- An enum without a dot in its name that is declared in a malformed namespace is refused for its
fullname. -/
theorem name_error_declared_suit :
    enum 0 (.declare "Suit" "" "card..game" .unknown) ["SPADES"] ∈
        [record 0 (.declare "Suit" "" "card..game" .unknown) [],
          enum 0 (.declare "Suit" "" "card..game" .unknown) ["SPADES"],
          fixed 0 (.declare "Suit" "" "card..game" .unknown) 4] ∧
      Name.isDotted "Suit" ∧ Name.IsNamespace "" ∧
      (enum 0 (.declare "Suit" "" "card..game" .unknown) ["SPADES"]).nameError? =
        some (.malformed "card..game.Suit") ∧
      ¬ Name.isDotted (enum 0 (.declare "Suit" "" "card..game" .unknown) ["SPADES"]).fullname := by
  have htype : enum 0 (.declare "Suit" "" "card..game" .unknown) ["SPADES"] ∈
      [record 0 (.declare "Suit" "" "card..game" .unknown) [],
        enum 0 (.declare "Suit" "" "card..game" .unknown) ["SPADES"],
        fixed 0 (.declare "Suit" "" "card..game" .unknown) 4] :=
    .tail _ (.head _)
  have hdotted : Name.isDotted "Suit" := by decide
  have hexplicit : Name.IsNamespace "" := .inl rfl
  obtain ⟨-, hcause, hfullname_iff⟩ :=
    name_error_declared "Suit" "" "card..game" .unknown 0 [] ["SPADES"] 4 _ htype
  refine ⟨htype, hdotted, hexplicit, ?_, ?_⟩
  · rw [hcause]
    decide
  · rw [hfullname_iff hdotted hexplicit, Name.IsNamespace]
    decide

end Schema

end AvroSchema
