/-!
# Cutting a text at its last separator

`splitLast? separator text` is the text before and the text after the last separator, and `none`
when the text has no separator. The laws say that nothing is lost, that the second part holds no
separator, and that gluing two texts with a separator between them is undone whenever the second
text has none of its own.
-/

namespace AvroSchema.Text

/-- The parts of a text before and after the last separator. -/
def splitLast? (separator : Char) : List Char → Option (List Char × List Char)
  | [] => none
  | c :: rest =>
      match splitLast? separator rest with
      | some (before, after) => some (c :: before, after)
      | none => if c = separator then some ([], rest) else none

/-- A text without the separator is not cut. -/
theorem split_last_eq_none_iff {separator : Char} {text : List Char} :
    splitLast? separator text = none ↔ separator ∉ text := by
  induction text with
  | nil => simp [splitLast?]
  | cons c rest ih =>
      simp only [splitLast?, List.mem_cons, not_or]
      cases h : splitLast? separator rest with
      | some parts =>
          have : separator ∈ rest := Classical.byContradiction fun habsent => by
            simp [ih.2 habsent] at h
          simp [this]
      | none =>
          have habsent : separator ∉ rest := ih.1 h
          by_cases hsame : c = separator
          · simp [hsame]
          · simp [hsame, habsent, Ne.symm hsame]

/-- Two texts glued by a separator are cut apart again, provided the second has no separator. -/
theorem split_last_append {separator : Char} {after : List Char} (habsent : separator ∉ after)
    (before : List Char) :
    splitLast? separator (before ++ separator :: after) = some (before, after) := by
  induction before with
  | nil => simp [splitLast?, split_last_eq_none_iff.2 habsent]
  | cons c rest ih => simp [splitLast?, ih]

/-- The two parts, joined by the separator, are the text again, and the second holds no
separator. -/
theorem eq_append_of_split_last {separator : Char} {text before after : List Char}
    (h : splitLast? separator text = some (before, after)) :
    text = before ++ separator :: after ∧ separator ∉ after := by
  induction text generalizing before after with
  | nil => simp [splitLast?] at h
  | cons c rest ih =>
      simp only [splitLast?] at h
      split at h
      · next before' after' hcut =>
          obtain ⟨rfl, rfl⟩ : c :: before' = before ∧ after' = after := by simpa using h
          obtain ⟨hjoined, habsent⟩ := ih hcut
          exact ⟨by rw [hjoined]; rfl, habsent⟩
      · next huncut =>
          split at h
          · next hsame =>
              obtain ⟨rfl, rfl⟩ : [] = before ∧ rest = after := by simpa using h
              exact ⟨by rw [hsame]; rfl, split_last_eq_none_iff.1 huncut⟩
          · cases h

end AvroSchema.Text
