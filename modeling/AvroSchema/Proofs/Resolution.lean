import AvroSchema.Proofs.DottedNames

/-!
# Resolving names and writing them in full

A name is resolved to a short name in a namespace, and written in full it is both of them joined by
a dot. Resolving leaves no dot in a short name, whatever the texts are, so a fullname tells what it
was made of (`QualifiedName.eq_of_fullname_eq`), and resolving it again changes nothing unless its
namespace is empty (`QualifiedName.resolve_fullname`). The main statement puts these laws together
for all texts, grammatical or not (`QualifiedName.resolve_inverse_to_fullname`).
-/

namespace AvroSchema

namespace QualifiedName

variable {name : QualifiedName} {text : String}

/-- A text with a dot is cut into two texts that make it up again. -/
theorem exists_dotted_of_dot_mem (h : '.' ∈ text.toList) :
    ∃ name, ofDotted? text = some name ∧ name.ns ++ "." ++ name.short = text := by
  cases hcut : ofDotted? text with
  | none => exact absurd h (of_dotted_eq_none_iff.1 hcut)
  | some name => exact ⟨name, rfl, (eq_append_of_dotted hcut).symm⟩

/-- The fullname of a name with no dot in its short name is cut unless the namespace is empty. -/
theorem of_dotted_fullname_eq_none_iff (hsimple : '.' ∉ name.short.toList) :
    ofDotted? name.fullname = none ↔ name.ns = "" := by
  constructor
  · intro huncut
    apply Classical.byContradiction
    intro hqualified
    rw [of_dotted_fullname hsimple hqualified] at huncut
    cases huncut
  · intro hunqualified
    rw [fullname_of_ns_eq_empty hunqualified]
    exact of_dotted_eq_none_iff.2 hsimple

/-- Names without dots in their short names are the same if their fullnames are. -/
theorem eq_of_fullname_eq {first second : QualifiedName} (hfirst : '.' ∉ first.short.toList)
    (hsecond : '.' ∉ second.short.toList) (h : first.fullname = second.fullname) :
    first = second := by
  have hsameCut : first.ns = "" ↔ second.ns = "" := by
    rw [← of_dotted_fullname_eq_none_iff hfirst, ← of_dotted_fullname_eq_none_iff hsecond, h]
  by_cases hunqualified : first.ns = ""
  · have hunqualifiedSecond := hsameCut.1 hunqualified
    rw [fullname_of_ns_eq_empty hunqualified, fullname_of_ns_eq_empty hunqualifiedSecond] at h
    obtain ⟨short, ns⟩ := first
    obtain ⟨otherShort, otherNs⟩ := second
    rw [mk.injEq]
    exact ⟨h, hunqualified.trans hunqualifiedSecond.symm⟩
  · have hcut := of_dotted_fullname hfirst hunqualified
    rw [h, of_dotted_fullname hsecond (mt hsameCut.2 hunqualified)] at hcut
    exact (Option.some.inj hcut).symm

/-- A short name without a dot is resolved to itself in its own namespace. -/
theorem resolve_short (hsimple : '.' ∉ name.short.toList) :
    resolve name.short name.ns "" = name := by
  rw [resolve_of_simple (of_dotted_eq_none_iff.2 hsimple)]
  by_cases hunqualified : name.ns = ""
  · rw [if_pos hunqualified, ← hunqualified]
  · rw [if_neg hunqualified]

/-- Resolving the parts of a resolved dotted name once more changes nothing, wherever they stand. -/
theorem resolve_resolve (hdotted : Name.isDotted text) (ns enclosing : String) :
    resolve (resolve text ns enclosing).short (resolve text ns enclosing).ns enclosing =
      resolve text ns enclosing := by
  cases hcut : ofDotted? text with
  | none =>
      rw [resolve_of_simple hcut, resolve_of_simple hcut]
      by_cases h : ns = ""
      · simp [h]
      · simp [h]
  | some name =>
      have hundotted := of_dotted_eq_none_iff.2 (dot_not_mem_short_of_dotted hcut)
      rw [resolve_of_dotted hcut, resolve_of_simple hundotted,
        if_neg (ns_ne_empty_of_is_dotted hcut hdotted)]

/-- A fullname with a namespace is resolved to what it was made of, wherever it stands. -/
theorem resolve_fullname (hsimple : '.' ∉ name.short.toList) (hqualified : name.ns ≠ "")
    (ns enclosing : String) : resolve name.fullname ns enclosing = name :=
  resolve_of_dotted (of_dotted_fullname hsimple hqualified) ns enclosing

/-- A dotted name is its own fullname. -/
theorem fullname_resolve_of_is_dotted (hdotted : Name.isDotted text) :
    (resolve text "" "").fullname = text := by
  cases hcut : ofDotted? text with
  | none =>
      rw [resolve_of_simple hcut]
      rfl
  | some name =>
      rw [resolve_of_dotted hcut, fullname, if_neg (ns_ne_empty_of_is_dotted hcut hdotted)]
      exact (eq_append_of_dotted hcut).symm

/-- Cutting, resolving and writing in full undo one another. A name is resolved to a short name
without a dot. Its fullname is cut into what it was resolved to, or if the namespace is empty it is
the short name and cannot be cut, so two names have the same fullname only if they are resolved to
the same. Resolving the parts again changes nothing, nor does resolving the fullname if it has a
namespace. A text with a dot is made up of what it is cut into, and a dotted name is its own
fullname. -/
theorem resolve_inverse_to_fullname :
    (∀ text ns enclosing : String,
      let resolved := resolve text ns enclosing
      '.' ∉ resolved.short.toList ∧
        (resolved.ns ≠ "" → ofDotted? resolved.fullname = some resolved) ∧
        (resolved.ns = "" →
          resolved.fullname = resolved.short ∧ ofDotted? resolved.fullname = none) ∧
        (∀ other otherNs otherEnclosing : String,
          (resolve other otherNs otherEnclosing).fullname = resolved.fullname ↔
            resolve other otherNs otherEnclosing = resolved) ∧
        (resolve resolved.short resolved.ns "").fullname = resolved.fullname ∧
        (resolved.ns ≠ "" → ∀ otherNs otherEnclosing : String,
          resolve resolved.fullname otherNs otherEnclosing = resolved ∧
            (resolve resolved.fullname otherNs otherEnclosing).fullname = resolved.fullname)) ∧
    (∀ text : String, '.' ∈ text.toList →
      ∃ name, ofDotted? text = some name ∧ name.ns ++ "." ++ name.short = text) ∧
    ∀ text : String, Name.isDotted text → (resolve text "" "").fullname = text := by
  refine ⟨?_, fun text h => exists_dotted_of_dot_mem h,
    fun text hdotted => fullname_resolve_of_is_dotted hdotted⟩
  intro text ns enclosing resolved
  have hsimple : '.' ∉ resolved.short.toList := dot_not_mem_short_resolve text ns enclosing
  refine ⟨hsimple, fun hqualified => of_dotted_fullname hsimple hqualified, ?_, ?_, ?_, ?_⟩
  · intro hunqualified
    exact ⟨fullname_of_ns_eq_empty hunqualified,
      (of_dotted_fullname_eq_none_iff hsimple).2 hunqualified⟩
  · intro other otherNs otherEnclosing
    constructor
    · exact eq_of_fullname_eq (dot_not_mem_short_resolve other otherNs otherEnclosing) hsimple
    · exact congrArg fullname
  · rw [resolve_short hsimple]
  · intro hqualified otherNs otherEnclosing
    have hagain := resolve_fullname hsimple hqualified otherNs otherEnclosing
    exact ⟨hagain, congrArg fullname hagain⟩

/-- The laws at texts with empty parts: nothing after the last dot, nothing in front of it, and a
dotted name. -/
theorem resolve_inverse_at_empty_parts :
    ((resolve "..a." "b" "c").ns ≠ "" ∧
      ofDotted? (resolve "..a." "b" "c").fullname = some ⟨"", "..a"⟩ ∧
      resolve (resolve "..a." "b" "c").fullname "d" "e" = resolve "..a." "b" "c") ∧
    ((resolve ".x" "b" "c").ns = "" ∧ (resolve ".x" "b" "c").fullname = "x") ∧
    ('.' ∈ ".".toList ∧ ∃ name, ofDotted? "." = some name ∧ name.ns ++ "." ++ name.short = ".") ∧
    Name.isDotted "x1._y.Z_9" ∧ (resolve "x1._y.Z_9" "" "").fullname = "x1._y.Z_9" := by
  obtain ⟨hlaws, hrejoined, hwritten⟩ := resolve_inverse_to_fullname
  obtain ⟨-, hcut, -, -, -, hagain⟩ := hlaws "..a." "b" "c"
  obtain ⟨-, -, huncut, -, -, -⟩ := hlaws ".x" "b" "c"
  have hqualified : (resolve "..a." "b" "c").ns ≠ "" := by decide
  have hunqualified : (resolve ".x" "b" "c").ns = "" := by decide
  refine ⟨⟨hqualified, hcut hqualified, (hagain hqualified "d" "e").1⟩,
    ⟨hunqualified, (huncut hunqualified).1⟩, ⟨?_, hrejoined "." ?_⟩, ?_, hwritten "x1._y.Z_9" ?_⟩
  all_goals decide

end QualifiedName

end AvroSchema
