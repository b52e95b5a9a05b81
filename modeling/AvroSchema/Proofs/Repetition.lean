import Mathlib.Data.List.Dedup
import Mathlib.Data.List.Perm.Lattice

/-!
# First occurrences and repetitions

The items of a list have keys. An item is a first occurrence if its key is new, and a repetition if
its key is the key of an item before it or one of some keys given in advance. The main statements
say how many repetitions there are (`length_repeats`), when there are none (`repeats_eq_nil_iff`),
that the first occurrence of a key is what a search for the key finds (`find_firsts`), and that the
order of the items does not matter for how often a key is repeated (`perm_repeats`).
-/

namespace AvroSchema

variable {α β : Type} [DecidableEq β] (key : α → β)

/-- The items whose keys are neither given in advance nor keys of items before them. -/
def firsts (earlier : List β) : List α → List α
  | [] => []
  | item :: rest =>
      if key item ∈ earlier then firsts (key item :: earlier) rest
      else item :: firsts (key item :: earlier) rest

/-- The items whose keys are given in advance or keys of items before them. -/
def repeats (earlier : List β) : List α → List α
  | [] => []
  | item :: rest =>
      if key item ∈ earlier then item :: repeats (key item :: earlier) rest
      else repeats (key item :: earlier) rest

/-- How many more keys there are than different ones. -/
def surplus (keys : List β) : Nat :=
  keys.length - keys.dedup.length

/-- Only membership among the keys given in advance matters for first occurrences. -/
theorem firsts_congr {earlier other : List β} (hsame : ∀ k, k ∈ earlier ↔ k ∈ other)
    (items : List α) : firsts key earlier items = firsts key other items := by
  induction items generalizing earlier other with
  | nil => rfl
  | cons item rest ih =>
      have hsameRest := @ih (key item :: earlier) (key item :: other) (by simp [hsame])
      simp only [firsts, hsame, hsameRest]

/-- Only membership among the keys given in advance matters for repetitions. -/
theorem repeats_congr {earlier other : List β} (hsame : ∀ k, k ∈ earlier ↔ k ∈ other)
    (items : List α) : repeats key earlier items = repeats key other items := by
  induction items generalizing earlier other with
  | nil => rfl
  | cons item rest ih =>
      have hsameRest := @ih (key item :: earlier) (key item :: other) (by simp [hsame])
      simp only [repeats, hsame, hsameRest]

variable {key}

/-- The first occurrences in the second part of a list are found after the keys of the first. -/
theorem firsts_append (earlier : List β) (front back : List α) :
    firsts key earlier (front ++ back) =
      firsts key earlier front ++ firsts key (front.map key ++ earlier) back := by
  induction front generalizing earlier with
  | nil => rfl
  | cons item rest ih =>
      have hsame : firsts key (rest.map key ++ key item :: earlier) back =
          firsts key ((item :: rest).map key ++ earlier) back :=
        firsts_congr key (by simp [or_left_comm]) back
      simp only [List.cons_append, firsts, ih, hsame]
      split <;> rfl

/-- The repetitions in the second part of a list are found after the keys of the first. -/
theorem repeats_append (earlier : List β) (front back : List α) :
    repeats key earlier (front ++ back) =
      repeats key earlier front ++ repeats key (front.map key ++ earlier) back := by
  induction front generalizing earlier with
  | nil => rfl
  | cons item rest ih =>
      have hsame : repeats key (rest.map key ++ key item :: earlier) back =
          repeats key ((item :: rest).map key ++ earlier) back :=
        repeats_congr key (by simp [or_left_comm]) back
      simp only [List.cons_append, repeats, ih, hsame]
      split <;> rfl

/-- Every item is either a first occurrence or a repetition. -/
theorem length_firsts_add_length_repeats (earlier : List β) (items : List α) :
    (firsts key earlier items).length + (repeats key earlier items).length = items.length := by
  induction items generalizing earlier with
  | nil => rfl
  | cons item rest ih =>
      have hrestLength := ih (key item :: earlier)
      simp only [firsts, repeats]
      split
      · simp only [List.length_cons]
        omega
      · simp only [List.length_cons]
        omega

/-- The first occurrences are some of the items, in the same order. -/
theorem firsts_sublist (earlier : List β) (items : List α) :
    (firsts key earlier items).Sublist items := by
  induction items generalizing earlier with
  | nil => exact .slnil
  | cons item rest ih =>
      simp only [firsts]
      split
      · exact (ih _).cons _
      · exact (ih _).cons_cons _

/-- The repetitions are among the items. -/
theorem repeats_sublist (earlier : List β) (items : List α) :
    (repeats key earlier items).Sublist items := by
  induction items generalizing earlier with
  | nil => exact .slnil
  | cons item rest ih =>
      rw [repeats]
      split
      · exact (ih _).cons_cons item
      · exact (ih _).cons item

/-- A key has a first occurrence if it occurs and is not given in advance. -/
theorem mem_keys_firsts {earlier : List β} {items : List α} {k : β} :
    k ∈ (firsts key earlier items).map key ↔ k ∈ items.map key ∧ k ∉ earlier := by
  induction items generalizing earlier with
  | nil => simp [firsts]
  | cons item rest ih =>
      simp only [firsts]
      split
      · next hknown =>
          rw [ih, List.map_cons, List.mem_cons, List.mem_cons, not_or]
          constructor
          · rintro ⟨hoccurs, -, hnew⟩
            exact ⟨.inr hoccurs, hnew⟩
          · rintro ⟨rfl | hoccurs, hnew⟩
            · exact absurd hknown hnew
            · exact ⟨hoccurs, fun hsame => hnew (hsame ▸ hknown), hnew⟩
      · next hunknown =>
          rw [List.map_cons, List.mem_cons, ih, List.map_cons, List.mem_cons, List.mem_cons, not_or]
          by_cases hsame : k = key item
          · simp [hsame, hunknown]
          · simp [hsame]

/-- No key occurs first twice. -/
theorem nodup_keys_firsts (earlier : List β) (items : List α) :
    ((firsts key earlier items).map key).Nodup := by
  induction items generalizing earlier with
  | nil => exact List.nodup_nil
  | cons item rest ih =>
      simp only [firsts]
      split
      · exact ih _
      · refine List.nodup_cons.2 ⟨fun hagain => ?_, ih _⟩
        exact (mem_keys_firsts.1 hagain).2 List.mem_cons_self

/-- There are as many first occurrences as there are distinct keys. -/
theorem length_firsts (items : List α) :
    (firsts key [] items).length = (items.map key).dedup.length := by
  have hsamePerm : ((firsts key [] items).map key).Perm (items.map key).dedup := by
    rw [List.perm_ext_iff_of_nodup (nodup_keys_firsts _ _) (List.nodup_dedup _)]
    simp [mem_keys_firsts, -List.mem_map]
  simpa using hsamePerm.length_eq

/-- An item that is its own key occurs first if it occurs and is not given in advance. -/
theorem mem_firsts_id {earlier items : List β} {item : β} :
    item ∈ firsts id earlier items ↔ item ∈ items ∧ item ∉ earlier := by
  have hkeys := @mem_keys_firsts _ _ _ id earlier items item
  rwa [List.map_id, List.map_id] at hkeys

/-- There are as many first occurrences of items that are their own keys as there are distinct
items. -/
theorem length_firsts_id (items : List β) : (firsts id [] items).length = items.dedup.length := by
  rw [length_firsts, List.map_id]

/-- There are as many repetitions as there are more items than distinct keys. -/
theorem length_repeats (items : List α) :
    (repeats key [] items).length = surplus (items.map key) := by
  have hall : (firsts key [] items).length + (repeats key [] items).length = items.length :=
    length_firsts_add_length_repeats [] items
  rw [length_firsts] at hall
  rw [surplus, List.length_map]
  omega

/-- Nothing is repeated if and only if no two items have the same key and no key is given in
advance. -/
theorem repeats_eq_nil_iff {earlier : List β} {items : List α} :
    repeats key earlier items = [] ↔
      (items.map key).Nodup ∧ ∀ item ∈ items, key item ∉ earlier := by
  induction items generalizing earlier with
  | nil => simp [repeats]
  | cons item rest ih =>
      simp only [repeats]
      split
      · next hknown => simp [hknown]
      · next hunknown =>
          rw [ih, List.map_cons, List.nodup_cons]
          constructor
          · rintro ⟨hnodup, hnew⟩
            refine ⟨⟨fun hagain => ?_, hnodup⟩, ?_⟩
            · obtain ⟨other, hother, hsame⟩ := List.mem_map.1 hagain
              exact hnew other hother (hsame ▸ List.mem_cons_self)
            · intro other hother
              rcases List.mem_cons.1 hother with rfl | hother
              · exact hunknown
              · exact fun hknown => hnew other hother (.tail _ hknown)
          · rintro ⟨⟨hnotAgain, hnodup⟩, hnew⟩
            refine ⟨hnodup, fun other hother hknown => ?_⟩
            rcases List.mem_cons.1 hknown with hsame | hknown
            · exact hnotAgain (hsame ▸ List.mem_map_of_mem hother)
            · exact hnew other (.tail _ hother) hknown

/-- Where nothing is repeated, every item is a first occurrence. -/
theorem firsts_eq_self {earlier : List β} {items : List α} (h : repeats key earlier items = []) :
    firsts key earlier items = items := by
  induction items generalizing earlier with
  | nil => rfl
  | cons item rest ih =>
      simp only [repeats] at h
      split at h
      · cases h
      · next hunknown => rw [firsts, if_neg hunknown, ih h]

/-- A search for a key that is not given in advance finds its first occurrence. -/
theorem find_firsts {earlier : List β} {k : β} (hnew : k ∉ earlier) (items : List α) :
    (firsts key earlier items).find? (fun item => key item = k) =
      items.find? (fun item => key item = k) := by
  induction items generalizing earlier with
  | nil => rfl
  | cons item rest ih =>
      by_cases hsame : key item = k
      · simp [firsts, hsame, hnew]
      · have hlater := @ih (key item :: earlier) (by simp [hnew, Ne.symm hsame])
        simp only [firsts]
        split <;> simp [hsame, hlater]

/-- A function that tells items apart keeps their first occurrences. -/
theorem firsts_map {α : Type} [DecidableEq α] {f : α → β} {earlier items : List α}
    (hinjective : ∀ first ∈ earlier ++ items, ∀ second ∈ earlier ++ items,
      f first = f second → first = second) :
    firsts id (earlier.map f) (items.map f) = (firsts id earlier items).map f := by
  induction items generalizing earlier with
  | nil => rfl
  | cons item rest ih =>
      have hlater := @ih (item :: earlier) (by simpa [or_left_comm] using hinjective)
      have hknown : f item ∈ earlier.map f ↔ item ∈ earlier := by
        constructor
        · intro h
          obtain ⟨other, hearlier, hsame⟩ := List.mem_map.1 h
          have hitem : item ∈ earlier ++ item :: rest := by simp
          exact hinjective other (List.mem_append_left _ hearlier) item hitem hsame ▸ hearlier
        · exact List.mem_map_of_mem
      rw [List.map_cons] at hlater
      simp only [List.map_cons, firsts, id, hknown, hlater]
      split <;> rfl

/-- The keys of repetitions are the repetitions among the keys. -/
theorem map_key_repeats (earlier : List β) (items : List α) :
    (repeats key earlier items).map key = repeats id earlier (items.map key) := by
  induction items generalizing earlier with
  | nil => rfl
  | cons item rest ih =>
      simp only [repeats, List.map_cons, id]
      split
      · rw [List.map_cons, ih]
      · exact ih _

/-- A key is repeated every time that it occurs if it is given in advance, and otherwise every time
but the first. -/
theorem count_repeats (earlier keys : List β) (k : β) :
    (repeats id earlier keys).count k = keys.count k - if k ∈ earlier then 0 else 1 := by
  induction keys generalizing earlier with
  | nil => simp [repeats]
  | cons head rest ih =>
      by_cases hsame : head = k
      · subst hsame
        by_cases hknown : head ∈ earlier
        · simp [repeats, hknown, ih]
        · simp [repeats, hknown, ih]
      · by_cases hknown : head ∈ earlier
        · simp [repeats, hknown, ih, hsame, Ne.symm hsame]
        · simp [repeats, hknown, ih, hsame, Ne.symm hsame]

/-- In another order, the same keys are repeated as often. -/
theorem perm_repeats (earlier : List β) {keys others : List β} (h : keys.Perm others) :
    (repeats id earlier keys).Perm (repeats id earlier others) := by
  rw [List.perm_iff_count]
  intro k
  rw [count_repeats, count_repeats, h.count_eq]

end AvroSchema
