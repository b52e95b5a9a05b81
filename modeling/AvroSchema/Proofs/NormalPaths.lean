import AvroSchema.Proofs.FileNumbers
import AvroSchema.Proofs.PathTexts

/-!
# Normal forms of paths

What a text in normal form looks like is said without reading it as a path (`IsNormal`). The texts
of well-formed paths are of this form (`is_normal_to_text`), and but for the empty text there are no
others of it (`IsNormal.exists_path`). So normalising a text a second time changes nothing, and a
registry finds each of its files again by the path that it holds (`Registry.registered_again`).
-/

namespace AvroSchema.File

namespace Path

variable {path : Path}

/-- An empty piece among the lower ones is the last of them. -/
theorem WellFormed.eq_nil_of_lower_pieces (h : path.WellFormed) {front back : List (List Char)}
    (hcut : path.lowerPieces = front ++ [] :: back) : back = [] := by
  have hfull : [] ∉ path.components := fun hcomponent => (h.components [] hcomponent).1 rfl
  -- It stands behind all components, where there is but one piece.
  have hfew : path.lowerPieces.length ≤ path.components.length + 1 := by
    rw [lowerPieces, List.length_append]
    split <;> simp
  have houtside : path.components.length ≤ front.length := by
    by_contra hinside
    have hstands : path.lowerPieces[front.length]? = some [] := by simp [hcut]
    rw [lowerPieces, List.getElem?_append_left (by omega)] at hstands
    exact hfull (List.mem_of_getElem? hstands)
  rw [hcut, List.length_append, List.length_cons] at hfew
  rw [← List.length_eq_zero_iff]
  omega

/-- An empty piece of a path's text is the first or the last one. -/
theorem WellFormed.eq_nil_or_eq_nil_of_pieces (h : path.WellFormed) {front back : List (List Char)}
    (hcut : path.pieces = front ++ [] :: back) : front = [] ∨ back = [] := by
  cases hnone : path.components.isEmpty with
  | true =>
      obtain ⟨rooted, rfl⟩ := h.exists_eq_start (List.isEmpty_iff.1 hnone)
      have hshort : (start rooted).pieces.length ≤ 2 := by cases rooted <;> decide
      rw [hcut, List.length_append, List.length_cons] at hshort
      rw [← List.length_eq_zero_iff, ← List.length_eq_zero_iff]
      omega
  | false =>
      rw [pieces, hnone] at hcut
      cases hrooted : path.rooted with
      | true =>
          rw [hrooted] at hcut
          cases front with
          | nil => exact .inl rfl
          | cons piece rest => exact .inr (h.eq_nil_of_lower_pieces (List.cons.inj hcut).2)
      | false =>
          rw [hrooted] at hcut
          exact .inr (h.eq_nil_of_lower_pieces hcut)

/-- A lower piece is a component or empty. -/
theorem mem_lower_pieces {piece : List Char} (h : piece ∈ path.lowerPieces) :
    piece ∈ path.components ∨ piece = [] := by
  rw [lowerPieces, List.mem_append] at h
  refine h.imp_right fun hending => ?_
  split at hending
  · exact List.mem_singleton.1 hending
  · cases hending

/-- Behind the components that go up, no lower piece does. -/
theorem WellFormed.lower_pieces_eq (h : path.WellFormed) :
    ∃ rest, path.lowerPieces = List.replicate path.climbs up ++ rest ∧ up ∉ rest := by
  refine ⟨path.names.reverse ++ if path.directory && !path.names.isEmpty then [[]] else [], ?_, ?_⟩
  · rw [lowerPieces, Path.components, List.append_assoc]
  · rw [List.mem_append, List.mem_reverse, not_or]
    refine ⟨fun hname => (h.names up hname).ne_up rfl, ?_⟩
    split
    · decide
    · exact List.not_mem_nil

/-- The lower pieces do not end in a component that goes up and an empty piece. -/
theorem WellFormed.not_suffix_lower_pieces (h : path.WellFormed) :
    ¬ [up, []] <:+ path.lowerPieces := by
  rintro ⟨front, hends⟩
  have hparted : front ++ [up, []] = front ++ [up] ++ [[]] := by simp
  rw [lowerPieces, hparted] at hends
  cases hentered : path.names with
  | nil =>
      -- All pieces are components then, and no component is empty.
      have hwhole : path.components = front ++ [up] ++ [[]] := by simpa [hentered] using hends.symm
      exact (h.components [] (by simp [hwhole])).1 rfl
  | cons name outer =>
      have hname := h.names name (hentered ▸ List.mem_cons_self)
      split at hends
      · have hlast := List.append_inj_left' hends rfl
        rw [Path.components, hentered, List.reverse_cons, ← List.append_assoc] at hlast
        exact hname.ne_up (by simpa using (List.append_inj_right' hlast rfl).symm)
      · rw [List.append_nil, Path.components, hentered, List.reverse_cons,
          ← List.append_assoc] at hends
        exact hname.ne_nil (by simpa using (List.append_inj_right' hends rfl).symm)

end Path

open AvroSchema.File.Path

/-- The text of a path is in normal form. -/
structure IsNormal (text : List Char) : Prop where
  /-- A component that stays where it is occurs only as the whole text. -/
  here : ['.'] ∈ text.splitOn '/' → text = ['.']
  /-- No separator is repeated. -/
  separators : ¬ ['/', '/'] <:+: text
  /-- The components that go up stand in front of everything else. -/
  climbs : ∃ count rest, text.splitOn '/' = List.replicate count up ++ rest ∧ up ∉ rest
  /-- Nothing goes up from the root. -/
  rooted : text.head? = some '/' → up ∉ text.splitOn '/'
  /-- A last component that goes up is not followed by a separator. -/
  ending : ¬ [up, []] <:+ text.splitOn '/'

/-- Between two separators that follow each other there is an empty piece. -/
theorem split_on_separators (front back : List Char) :
    (front ++ ['/', '/'] ++ back).splitOn '/' = front.splitOn '/' ++ [] :: back.splitOn '/' := by
  rw [List.append_assoc, List.cons_append, List.singleton_append, List.splitOn_append_cons_self,
    split_on_separator]

/-- The text of a well-formed path has no repeated separators. -/
theorem not_infix_to_text {path : Path} (h : path.WellFormed) : ¬ ['/', '/'] <:+: path.toText := by
  rintro ⟨front, back, hspelled⟩
  have hcut := h.split_on_to_text
  rw [← hspelled, split_on_separators] at hcut
  rcases h.eq_nil_or_eq_nil_of_pieces hcut.symm with hnone | hnone
  · exact List.splitOn_ne_nil '/' front hnone
  · exact List.splitOn_ne_nil '/' back hnone

/-- The text of a well-formed path is in normal form. -/
theorem is_normal_to_text {path : Path} (h : path.WellFormed) : IsNormal path.toText := by
  have hseparators := not_infix_to_text h
  cases hnone : path.components.isEmpty with
  | true =>
      obtain ⟨rooted, rfl⟩ := h.exists_eq_start (List.isEmpty_iff.1 hnone)
      cases rooted with
      | true => exact ⟨by decide, hseparators, ⟨0, [[], []], by decide⟩, by decide, by decide⟩
      | false => exact ⟨by decide, hseparators, ⟨0, [['.']], by decide⟩, by decide, by decide⟩
  | false =>
      have hcut : path.toText.splitOn '/' =
          if path.rooted then [] :: path.lowerPieces else path.lowerPieces := by
        rw [h.split_on_to_text, pieces, hnone]
        rfl
      have hhead := h.head_to_text
      obtain ⟨rest, hlower, hnotUp⟩ := h.lower_pieces_eq
      have hnotHere : ['.'] ∉ path.lowerPieces := by
        intro hhere
        rcases mem_lower_pieces hhere with hcomponent | hempty
        · exact (h.components _ hcomponent).2.1 rfl
        · cases hempty
      cases hrooted : path.rooted with
      | true =>
          rw [hrooted, if_pos rfl] at hcut
          rw [h.climbs hrooted, List.replicate_zero, List.nil_append] at hlower
          have hnotUpAtAll : up ∉ [] :: path.lowerPieces := by simp [hlower, hnotUp]
          refine ⟨?_, hseparators, ⟨0, path.toText.splitOn '/', rfl, hcut ▸ hnotUpAtAll⟩,
            fun _ => hcut ▸ hnotUpAtAll, ?_⟩
          · simp [hcut, hnotHere]
          · rw [hcut, List.suffix_cons_iff]
            rintro (hwhole | hends)
            · exact absurd (List.cons.inj hwhole).1 (List.cons_ne_nil _ _)
            · exact h.not_suffix_lower_pieces hends
      | false =>
          rw [hrooted, if_neg Bool.false_ne_true] at hcut
          rw [hrooted, beq_eq_false_iff_ne] at hhead
          refine ⟨?_, hseparators, ⟨path.climbs, rest, hcut.trans hlower, hnotUp⟩,
            fun hbegins => absurd hbegins hhead, hcut ▸ h.not_suffix_lower_pieces⟩
          simp [hcut, hnotHere]

/-- Pieces of a text are cut out again when they are joined. -/
theorem split_on_intercalate_of_sublist {text : List Char} {pieces : List (List Char)}
    (hsub : pieces.Sublist (text.splitOn '/')) (hnonempty : pieces ≠ []) :
    (['/'].intercalate pieces).splitOn '/' = pieces :=
  List.splitOn_intercalate '/' (fun _ hpiece => not_mem_of_mem_split_on (hsub.mem hpiece)) hnonempty

/-- In a normal form, an empty piece is the first or the last one. -/
theorem IsNormal.eq_nil_or_eq_nil {text : List Char} (h : IsNormal text)
    {front back : List (List Char)} (hcut : text.splitOn '/' = front ++ [] :: back) :
    front = [] ∨ back = [] := by
  by_contra hinside
  rw [not_or] at hinside
  have hsubFront : front.Sublist (text.splitOn '/') := hcut ▸ List.sublist_append_left _ _
  have hsubBack : back.Sublist (text.splitOn '/') :=
    hcut ▸ (List.sublist_cons_self _ _).trans (List.sublist_append_right _ _)
  have hjoined : (['/'].intercalate front ++ ['/', '/'] ++ ['/'].intercalate back).splitOn '/' =
      text.splitOn '/' := by
    rw [split_on_separators, split_on_intercalate_of_sublist hsubFront hinside.1,
      split_on_intercalate_of_sublist hsubBack hinside.2, hcut]
  exact h.separators ⟨_, _, eq_of_split_on_eq hjoined⟩

/-- A piece of a normal form is a name if it has characters and does not go up. -/
theorem IsNormal.is_name {text piece : List Char} (h : IsNormal text) (hnotHere : text ≠ ['.'])
    (hpiece : piece ∈ text.splitOn '/') (hnonempty : piece ≠ []) (hnotUp : piece ≠ up) :
    IsName piece :=
  ⟨hnonempty, fun hhere => hnotHere (h.here (hhere ▸ hpiece)), hnotUp,
    not_mem_of_mem_split_on hpiece⟩

/-- The pieces of a normal form below its start are those of a well-formed path with components. -/
theorem IsNormal.exists_lower_pieces_eq {text : List Char} (h : IsNormal text)
    (hnotHere : text ≠ ['.']) {front lower : List (List Char)}
    (hcut : text.splitOn '/' = front ++ lower) {rooted : Bool}
    (hclimbs : ∃ count rest, lower = List.replicate count up ++ rest ∧ up ∉ rest ∧
      (rooted → count = 0))
    (hinner : ∀ before after, lower = before ++ [] :: after → after = [])
    (hsome : lower ≠ []) (hnotEmpty : lower ≠ [[]]) :
    ∃ path : Path, path.WellFormed ∧ path.rooted = rooted ∧ path.components ≠ [] ∧
      path.lowerPieces = lower := by
  obtain ⟨count, rest, rfl, hnotUp, hnoClimbs⟩ := hclimbs
  have hnames : ∀ name ∈ rest, name ≠ [] → IsName name := fun name hpiece hnonempty =>
    h.is_name hnotHere (by simp [hcut, hpiece]) hnonempty fun hup => hnotUp (hup ▸ hpiece)
  -- Behind the components that go up, there are only names, but for the last piece.
  rcases List.eq_nil_or_concat' rest with rfl | ⟨init, last, rfl⟩
  · have hclimbing : count ≠ 0 := by simpa using hsome
    refine ⟨⟨rooted, count, [], true⟩, ⟨by simp, hnoClimbs, fun _ => rfl⟩, rfl, ?_, ?_⟩
    · simpa [components] using hclimbing
    · simp [lowerPieces, components]
  · have hfull : [] ∉ init := by
      intro hpiece
      obtain ⟨before, after, rfl⟩ := List.append_of_mem hpiece
      have hnone := hinner (List.replicate count up ++ before) (after ++ [last]) (by simp)
      simp at hnone
    have hinitNames : ∀ name ∈ init, IsName name := fun name hpiece =>
      hnames name (List.mem_append_left _ hpiece) fun hempty => hfull (hempty ▸ hpiece)
    by_cases hending : last = []
    · -- The empty piece at the end stands behind a name, since it cannot stand behind two dots.
      subst hending
      have hnamed : init ≠ [] := by
        rintro rfl
        cases count with
        | zero => exact hnotEmpty rfl
        | succ count =>
            refine h.ending ⟨front ++ List.replicate count up, ?_⟩
            simp [hcut, List.replicate_succ']
      refine ⟨⟨rooted, count, init.reverse, true⟩,
        ⟨by simpa using hinitNames, hnoClimbs, fun _ => rfl⟩, rfl, ?_, ?_⟩
      · simp [components, hnamed]
      · simp [lowerPieces, components, hnamed]
    · have hlastName := hnames last (by simp) hending
      refine ⟨⟨rooted, count, last :: init.reverse, false⟩,
        ⟨?_, hnoClimbs, fun hnone => absurd hnone (List.cons_ne_nil _ _)⟩, rfl, ?_, ?_⟩
      · simpa [hlastName] using hinitNames
      · simp [components]
      · simp [lowerPieces, components]

/-- Only the empty text is cut into nothing but an empty piece. -/
theorem split_on_ne_singleton_nil {text : List Char} (hnonempty : text ≠ []) :
    text.splitOn '/' ≠ [[]] :=
  fun hsingle => hnonempty (eq_of_split_on_eq (hsingle.trans (List.splitOn_nil '/').symm))

/-- Every normal form that begins with a separator is the text of a well-formed path. -/
theorem IsNormal.exists_rooted_path {below : List Char} (h : IsNormal ('/' :: below)) :
    ∃ path : Path, path.WellFormed ∧ path.toText = '/' :: below := by
  by_cases hroot : below = []
  · exact ⟨start true, well_formed_start true, by rw [hroot]; rfl⟩
  · have hcut := split_on_separator below
    have hnotUp : up ∉ below.splitOn '/' := fun hup =>
      h.rooted rfl (hcut ▸ List.mem_cons_of_mem [] hup)
    have hinner : ∀ before after, below.splitOn '/' = before ++ [] :: after → after = [] := by
      intro before after hparts
      rw [hparts, ← List.cons_append] at hcut
      exact (h.eq_nil_or_eq_nil hcut).resolve_left (List.cons_ne_nil _ _)
    obtain ⟨path, hwellFormed, hrooted, hsome, hlower⟩ :=
      @IsNormal.exists_lower_pieces_eq _ h (by simp) [[]] (below.splitOn '/') hcut true
        ⟨0, below.splitOn '/', rfl, hnotUp, fun _ => rfl⟩ hinner
        (List.splitOn_ne_nil '/' below) (split_on_ne_singleton_nil hroot)
    refine ⟨path, hwellFormed, eq_of_split_on_eq (hwellFormed.split_on_to_text.trans ?_)⟩
    simp [pieces, hsome, hrooted, hlower, hcut]

/-- Every normal form but the empty one is the text of a well-formed path. -/
theorem IsNormal.exists_path {text : List Char} (h : IsNormal text) (hnonempty : text ≠ []) :
    ∃ path : Path, path.WellFormed ∧ path.toText = text := by
  by_cases hhere : text = ['.']
  · exact ⟨start false, well_formed_start false, hhere.symm⟩
  · by_cases hbegins : text.head? = some '/'
    · obtain ⟨below, rfl⟩ := List.head?_eq_some_iff.1 hbegins
      exact h.exists_rooted_path
    · have hinner : ∀ before after, text.splitOn '/' = before ++ [] :: after → after = [] := by
        intro before after hparts
        rcases h.eq_nil_or_eq_nil hparts with rfl | hlast
        · -- With an empty piece in front of others, the text would begin with a separator.
          by_contra hmore
          have hjoined : ['/'].intercalate (text.splitOn '/') = text := List.intercalate_splitOn '/'
          rw [hparts, List.nil_append, List.intercalate_cons_of_ne_nil hmore] at hjoined
          exact hbegins (hjoined ▸ rfl)
        · exact hlast
      obtain ⟨count, rest, hparts, hnotUp⟩ := h.climbs
      obtain ⟨path, hwellFormed, hrooted, hsome, hlower⟩ :=
        @IsNormal.exists_lower_pieces_eq _ h hhere [] (text.splitOn '/') rfl false
          ⟨count, rest, hparts, hnotUp, nofun⟩ hinner (List.splitOn_ne_nil '/' text)
          (split_on_ne_singleton_nil hnonempty)
      refine ⟨path, hwellFormed, eq_of_split_on_eq (hwellFormed.split_on_to_text.trans ?_)⟩
      simp [pieces, hsome, hrooted, hlower]

namespace Path

/-- No path has the empty text. -/
theorem WellFormed.to_text_ne_nil {path : Path} (h : path.WellFormed) : path.toText ≠ [] := by
  intro hnone
  have hread := h.of_text_to_text
  rw [hnone] at hread
  rw [← hread] at hnone
  exact absurd hnone (by decide)

/-- The normal form of a text that is not empty is the text of the path that it is read as. -/
theorem to_list_normalise {text : String} (h : text ≠ "") :
    (normalise text).toList = (ofText text.toList).toText := by
  rw [normalise, if_neg h, String.toList_ofList]

/-- Only the empty text has an empty normal form. -/
theorem normalise_eq_empty_iff {text : String} : normalise text = "" ↔ text = "" := by
  constructor
  · intro hnone
    by_contra hnonempty
    refine (well_formed_of_text text.toList).to_text_ne_nil ?_
    rw [← to_list_normalise hnonempty, hnone]
    rfl
  · rintro rfl
    rfl

/-- A text and its normal form are read as the same path. -/
theorem of_text_normalise (text : String) :
    ofText (normalise text).toList = ofText text.toList := by
  by_cases hempty : text = ""
  · rw [hempty]
    rfl
  · rw [to_list_normalise hempty]
    exact (well_formed_of_text text.toList).of_text_to_text

/-- A normal form is its own normal form. -/
theorem normalise_normalise (text : String) : normalise (normalise text) = normalise text := by
  by_cases hempty : text = ""
  · rw [hempty]
    rfl
  · have hnonempty : normalise text ≠ "" := mt normalise_eq_empty_iff.1 hempty
    apply String.toList_injective
    rw [to_list_normalise hnonempty, of_text_normalise, to_list_normalise hempty]

/-- Normal forms are in normal form. -/
theorem is_normal_normalise (text : String) : IsNormal (normalise text).toList := by
  by_cases hempty : text = ""
  · rw [hempty]
    exact ⟨by decide, by decide, ⟨0, [[]], by decide⟩, by decide, by decide⟩
  · rw [to_list_normalise hempty]
    exact is_normal_to_text (well_formed_of_text text.toList)

/-- The texts that are their own normal forms are those in normal form. -/
theorem normalise_eq_self_iff {text : String} : normalise text = text ↔ IsNormal text.toList := by
  constructor
  · exact fun hsame => hsame ▸ is_normal_normalise text
  · intro hnormal
    by_cases hempty : text = ""
    · rw [hempty]
      rfl
    · obtain ⟨path, hwellFormed, hspelled⟩ := hnormal.exists_path (by simpa using hempty)
      apply String.toList_injective
      rw [to_list_normalise hempty, ← hspelled, hwellFormed.of_text_to_text]

end Path

namespace Registry

/-- Every path that a registry holds is the normal form of one that was registered. -/
theorem exists_normalise_eq {paths : List String} {normal : String}
    (hheld : normal ∈ (empty.registerAll paths).2.paths) :
    ∃ path ∈ paths, Path.normalise path = normal := by
  rw [consistent_empty.paths_register_all] at hheld
  exact List.mem_map.1 (mem_firsts_id.1 (List.mem_of_mem_take hheld)).1

/-- A path that a registry holds in normal form is found again under its number. -/
theorem Consistent.register_path {files : Registry} (h : files.Consistent) {index : Nat}
    (hknown : index < files.size)
    (hsame : Path.normalise (files.path (index + 1)) = files.path (index + 1)) :
    files.register (files.path (index + 1)) = (index + 1, files) := by
  have hstands := get_elem_paths_path hknown
  have hheld : files.path (index + 1) ∈ files.paths := List.mem_of_getElem? hstands
  rcases h.register_cases (files.path (index + 1)) with ⟨-, hfound⟩ | ⟨hnew, -⟩ | ⟨hnew, -⟩
  · rw [hfound, hsame, h.number_of_eq hstands]
  · exact absurd hheld (hsame ▸ hnew)
  · exact absurd hheld (hsame ▸ hnew)

/-- Registering a path that is held finds its file again. A text and its normal form are read as the
same path, and normalising a second time changes nothing. The texts in normal form are those that
normalising does not change, and only the empty text has an empty normal form. So after any
registrations, registering the path of a file answers the number of the file and leaves the
registry as it is. The path is the normal form of one that was registered, and it is in normal
form. -/
theorem registered_again (paths : List String) :
    (∀ text, Path.ofText (Path.normalise text).toList = Path.ofText text.toList ∧
      Path.normalise (Path.normalise text) = Path.normalise text ∧
      IsNormal (Path.normalise text).toList ∧
      (Path.normalise text = text ↔ IsNormal text.toList) ∧
      (Path.normalise text = "" ↔ text = "")) ∧
    let files := (empty.registerAll paths).2
    ∀ number, 0 < number → number ≤ files.size →
      files.register (files.path number) = (number, files) ∧
      IsNormal (files.path number).toList ∧
      ∃ path ∈ paths, Path.normalise path = files.path number := by
  refine ⟨fun text => ⟨Path.of_text_normalise text, Path.normalise_normalise text,
    Path.is_normal_normalise text, Path.normalise_eq_self_iff, Path.normalise_eq_empty_iff⟩, ?_⟩
  intro files number hpositive hknown
  obtain ⟨index, rfl⟩ := Nat.exists_eq_add_one_of_ne_zero (Nat.ne_of_gt hpositive)
  have hconsistent : files.Consistent := consistent_empty.register_all paths
  have hheld := List.mem_of_getElem? (get_elem_paths_path hknown)
  obtain ⟨path, hregistered, hnormal⟩ := exists_normalise_eq hheld
  have hsame : Path.normalise (files.path (index + 1)) = files.path (index + 1) := by
    rw [← hnormal, Path.normalise_normalise]
  exact ⟨hconsistent.register_path hknown hsame, Path.normalise_eq_self_iff.1 hsame,
    path, hregistered, hnormal⟩

/-- A directory that is reached through its parents is held in normal form and found again. -/
theorem registered_again_orders :
    let files := (empty.registerAll ["orders//../../schemas/./orders/", "order.avsc"]).2
    files.path 1 = "../schemas/orders/" ∧ files.register "../schemas/orders/" = (1, files) ∧
      IsNormal "../schemas/orders/".toList := by
  intro files
  have hheld : files.path 1 = "../schemas/orders/" := by decide
  obtain ⟨hagain, hnormal, -⟩ := (registered_again
    ["orders//../../schemas/./orders/", "order.avsc"]).2 1 (by decide) (by decide)
  refine ⟨hheld, ?_, ?_⟩
  · rw [← hheld]
    exact hagain
  · rw [← hheld]
    exact hnormal

end Registry

end AvroSchema.File
