import Mathlib.Data.List.Basic
import AvroSchema.File.Path

/-!
# Texts of paths

The text of a path is read back as the same path (`Path.WellFormed.of_text_to_text`). This needs
that the path is one that can be read at all, and such paths are well formed
(`Path.well_formed_of_text`). The text of a well-formed path is cut into its pieces again
(`Path.WellFormed.split_on_to_text`), and following these leads from the start of the path to the
path itself.
-/

namespace AvroSchema.File

/-- The component that goes to the enclosing directory. -/
abbrev up : List Char :=
  ['.', '.']

/-- A component that is the name of an entry of a directory. -/
structure IsName (component : List Char) : Prop where
  ne_nil : component ≠ []
  ne_here : component ≠ ['.']
  ne_up : component ≠ up
  whole : '/' ∉ component

namespace Path

/-- What holds of every path that is read from a text: its names are names, there is nothing above
the root, and where no name was entered there is a directory. -/
structure WellFormed (path : Path) : Prop where
  names : ∀ name ∈ path.names, IsName name
  climbs : path.rooted → path.climbs = 0
  directory : path.names = [] → path.directory = true

variable {path : Path} {component : List Char}

/-- The path that leads nowhere yet is well formed. -/
theorem well_formed_start (rooted : Bool) : (start rooted).WellFormed :=
  ⟨by simp [start], fun _ => rfl, fun _ => rfl⟩

/-- Two dots leave the directory. -/
theorem follow_up (path : Path) : path.follow up = path.leave := by
  simp [follow]

/-- A name is entered. -/
theorem follow_name (hname : IsName component) : path.follow component = path.enter component := by
  rw [follow, if_neg (by simp [hname.ne_nil, hname.ne_here]), if_neg hname.ne_up]

/-- A path stays well formed if a component is followed. -/
theorem WellFormed.follow (h : path.WellFormed) (hwhole : '/' ∉ component) :
    (path.follow component).WellFormed := by
  by_cases hempty : component = [] ∨ component = ['.']
  · rw [Path.follow, if_pos hempty]
    exact ⟨h.names, h.climbs, fun _ => rfl⟩
  · by_cases hup : component = up
    · rw [hup, follow_up, leave]
      cases hentered : path.names with
      | cons name outer =>
          have hnames := h.names
          rw [hentered, List.forall_mem_cons] at hnames
          exact ⟨hnames.2, h.climbs, fun _ => rfl⟩
      | nil => exact ⟨by simp, fun hrooted => if_pos hrooted, fun _ => rfl⟩
    · rw [not_or] at hempty
      have hname : IsName component := ⟨hempty.1, hempty.2, hup, hwhole⟩
      rw [follow_name hname]
      exact ⟨List.forall_mem_cons.2 ⟨hname, h.names⟩, h.climbs, nofun⟩

/-- The pieces of a text have no separators in them. -/
theorem not_mem_of_mem_split_on {separator : Char} {text piece : List Char}
    (h : piece ∈ text.splitOn separator) : separator ∉ piece := by
  induction text generalizing piece with
  | nil =>
      rw [List.splitOn_nil, List.mem_singleton] at h
      simp [h]
  | cons first rest ih =>
      rw [List.splitOn_cons_eq_if_modifyHead] at h
      split at h
      · rcases List.mem_cons.1 h with rfl | h
        · exact List.not_mem_nil
        · exact ih h
      · next hdifferent =>
          cases hcut : rest.splitOn separator with
          | nil => exact absurd hcut (List.splitOn_ne_nil separator rest)
          | cons head others =>
              rw [hcut] at h ih
              rcases List.mem_cons.1 h with rfl | h
              · have hapart := ih List.mem_cons_self
                simp only [beq_iff_eq] at hdifferent
                simp [hapart, Ne.symm hdifferent]
              · exact ih (List.mem_cons_of_mem head h)

/-- Texts that are cut into the same pieces are the same. -/
theorem eq_of_split_on_eq {separator : Char} {text other : List Char}
    (h : text.splitOn separator = other.splitOn separator) : text = other := by
  have hjoined : [separator].intercalate (text.splitOn separator) = text :=
    List.intercalate_splitOn separator
  rw [← hjoined, h, List.intercalate_splitOn]

/-- In front of a separator at the beginning there is an empty piece. -/
theorem split_on_separator (rest : List Char) :
    ('/' :: rest).splitOn '/' = [] :: rest.splitOn '/' :=
  List.splitOn_append_cons_self [] rest

/-- A path stays well formed if components are followed. -/
theorem WellFormed.foldl_follow {components : List (List Char)} (h : path.WellFormed)
    (hwhole : ∀ component ∈ components, '/' ∉ component) :
    (components.foldl Path.follow path).WellFormed := by
  induction components generalizing path with
  | nil => exact h
  | cons component rest ih =>
      rw [List.forall_mem_cons] at hwhole
      exact ih (h.follow hwhole.1) hwhole.2

/-- Every path that is read from a text is well formed. -/
theorem well_formed_of_text (text : List Char) : (ofText text).WellFormed :=
  (well_formed_start _).foldl_follow fun _ => not_mem_of_mem_split_on

/-- The pieces below the start of a path: its components, and an empty piece after the separator
that ends the text of a named directory. -/
def lowerPieces (path : Path) : List (List Char) :=
  path.components ++ if path.directory && !path.names.isEmpty then [[]] else []

/-- The pieces between the separators in the text of a path. -/
def pieces (path : Path) : List (List Char) :=
  if path.components.isEmpty then if path.rooted then [[], []] else [['.']]
  else if path.rooted then [] :: path.lowerPieces else path.lowerPieces

/-- The components of a well-formed path have characters, and no separators among them. -/
theorem WellFormed.components (h : path.WellFormed) :
    ∀ component ∈ path.components, component ≠ [] ∧ component ≠ ['.'] ∧ '/' ∉ component := by
  intro component hcomponent
  rw [Path.components, List.mem_append, List.mem_replicate, List.mem_reverse] at hcomponent
  rcases hcomponent with ⟨-, rfl⟩ | hisName
  · decide
  · have hname := h.names component hisName
    exact ⟨hname.ne_nil, hname.ne_here, hname.whole⟩

/-- A path without components has nothing but its start. -/
theorem components_eq_nil_iff : path.components = [] ↔ path.climbs = 0 ∧ path.names = [] := by
  simp [components]

/-- A well-formed path without components leads nowhere. -/
theorem WellFormed.exists_eq_start (h : path.WellFormed) (hnone : path.components = []) :
    ∃ rooted, path = start rooted := by
  obtain ⟨hnoClimbs, hnoNames⟩ := components_eq_nil_iff.1 hnone
  refine ⟨path.rooted, ?_⟩
  rw [start, ← hnoClimbs, ← hnoNames, ← h.directory hnoNames]

/-- The text of a path is cut into its pieces. -/
theorem WellFormed.split_on_to_text (h : path.WellFormed) :
    path.toText.splitOn '/' = path.pieces := by
  cases hnone : path.components.isEmpty with
  | true =>
      obtain ⟨rooted, rfl⟩ := h.exists_eq_start (List.isEmpty_iff.1 hnone)
      cases rooted with
      | true => rfl
      | false => rfl
  | false =>
      have hsome : path.components ≠ [] := by simpa using hnone
      have hlower : (['/'].intercalate path.components ++
          if path.directory && !path.names.isEmpty then ['/'] else []).splitOn '/' =
            path.lowerPieces := by
        have hcut := List.splitOn_intercalate '/' (fun component hcomponent =>
          (h.components component hcomponent).2.2) hsome
        rw [lowerPieces]
        split
        · rw [List.splitOn_append_cons_self, hcut, List.splitOn_nil]
        · rw [List.append_nil, List.append_nil, hcut]
      rw [toText, pieces, hnone]
      cases path.rooted with
      | true =>
          have hfront := split_on_separator (['/'].intercalate path.components ++
            if path.directory && !path.names.isEmpty then ['/'] else [])
          rwa [hlower] at hfront
      | false => exact hlower

/-- The text of a path begins with a separator if and only if the path is rooted. -/
theorem WellFormed.head_to_text (h : path.WellFormed) :
    (path.toText.head? == some '/') = path.rooted := by
  cases hrooted : path.rooted with
  | true => simp [toText, hrooted]
  | false =>
      rw [beq_eq_false_iff_ne]
      intro hbegins
      obtain ⟨rest, hspelled⟩ := List.head?_eq_some_iff.1 hbegins
      have hcut := h.split_on_to_text
      rw [hspelled, split_on_separator] at hcut
      -- The first piece would be empty, but it is a component or a dot.
      cases hbelow : path.components with
      | nil => simp [pieces, hbelow, hrooted] at hcut
      | cons component others =>
          have hfirst : component ∈ path.components := hbelow ▸ List.mem_cons_self
          have hpieced : path.pieces.head? = some component := by
            simp [pieces, lowerPieces, hbelow, hrooted]
          rw [← hcut, List.head?_cons, Option.some.injEq] at hpieced
          exact (h.components component hfirst).1 hpieced.symm

/-- Following two dots from the start of a path that is not rooted leads up. -/
theorem foldl_follow_up (climbs more : Nat) :
    (List.replicate more up).foldl follow ⟨false, climbs, [], true⟩ =
      ⟨false, climbs + more, [], true⟩ := by
  induction more generalizing climbs with
  | zero => rfl
  | succ more ih =>
      rw [List.replicate_succ, List.foldl_cons, follow_up]
      exact (ih (climbs + 1)).trans (by rw [Nat.add_right_comm, Nat.add_assoc])

/-- Following names from the outermost one on enters them. -/
theorem foldl_follow_names (rooted : Bool) (climbs : Nat) {names : List (List Char)}
    (hareNames : ∀ name ∈ names, IsName name) :
    names.reverse.foldl follow ⟨rooted, climbs, [], true⟩ =
      ⟨rooted, climbs, names, names.isEmpty⟩ := by
  induction names with
  | nil => rfl
  | cons name outer ih =>
      rw [List.forall_mem_cons] at hareNames
      rw [List.reverse_cons, List.foldl_append, ih hareNames.2, List.foldl_cons,
        follow_name hareNames.1]
      rfl

/-- A path that is read from its own text is the same path. -/
theorem WellFormed.of_text_to_text (h : path.WellFormed) : ofText path.toText = path := by
  cases hnone : path.components.isEmpty with
  | true =>
      obtain ⟨rooted, rfl⟩ := h.exists_eq_start (List.isEmpty_iff.1 hnone)
      cases rooted with
      | true => rfl
      | false => rfl
  | false =>
      have hlower : path.lowerPieces.foldl Path.follow (start path.rooted) = path := by
        have hclimbed : (List.replicate path.climbs up).foldl Path.follow (start path.rooted) =
            ⟨path.rooted, path.climbs, [], true⟩ := by
          cases hrooted : path.rooted with
          | true =>
              rw [h.climbs hrooted]
              rfl
          | false =>
              have hupwards := foldl_follow_up 0 path.climbs
              rwa [Nat.zero_add] at hupwards
        rw [lowerPieces, Path.components, List.foldl_append, List.foldl_append, hclimbed,
          foldl_follow_names path.rooted path.climbs h.names]
        obtain ⟨rooted, climbs, names, directory⟩ := path
        cases names with
        | nil =>
            have hdirectory : directory = true := h.directory rfl
            rw [hdirectory]
            rfl
        | cons name outer => cases directory <;> rfl
      rw [ofText, h.head_to_text, h.split_on_to_text, pieces, hnone]
      cases hrooted : path.rooted with
      | true =>
          rw [hrooted] at hlower
          exact hlower
      | false =>
          rw [hrooted] at hlower
          exact hlower

end Path

end AvroSchema.File
