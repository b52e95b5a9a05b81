import AvroSchema.Diagnostic.Printer
import AvroSchema.Proofs.Repetition

/-!
# Numbers of files

A registry is consistent if its parts agree on which path has which number, and a registration keeps
it so (`Consistent.register`). After any number of registrations, the registry holds the normal
forms that came first, as many as there are numbers (`Consistent.paths_register_all`), and the
numbers given out are the ones under which it finds them (`Consistent.numbers_register_all`). The
main statement, `registered_for_good`, says what this means as long as the numbers suffice.
-/

namespace AvroSchema.File.Registry

/-- Register paths one after the other. -/
def registerAll (files : Registry) : List String → List Nat × Registry
  | [] => ([], files)
  | path :: rest =>
      let (number, next) := files.register path
      let (numbers, final) := next.registerAll rest
      (number :: numbers, final)

/-- The number under which a normalised path is found, and zero if it is not. -/
def numberOf (files : Registry) (normal : String) : Nat :=
  (files.numbers.lookup normal).getD 0

/-- The parts of a registry agree: the next number comes after those of all paths, and a path is
found under a number if and only if it stands at that number. -/
structure Consistent (files : Registry) : Prop where
  next_eq : files.next = files.size + 1
  lookup_iff : ∀ normal number, files.numbers.lookup normal = some number ↔
    ∃ index, number = index + 1 ∧ files.paths[index]? = some normal

/-- The registry without files is consistent. -/
theorem consistent_empty : empty.Consistent := by
  constructor
  · rfl
  · simp [empty]

/-- An added path is found under the next number. -/
theorem lookup_numbers_add (files : Registry) (normal other : String) :
    (files.add normal).numbers.lookup other =
      if other = normal then some files.next else files.numbers.lookup other := by
  simp only [add, List.lookup_cons]
  split
  · next hsame => rw [if_pos (beq_iff_eq.1 hsame)]
  · next hdifferent => rw [if_neg (beq_eq_false_iff_ne.1 hdifferent)]

/-- An added path stands after all others. -/
theorem get_elem_paths_add {files : Registry} {normal other : String} {index : Nat} :
    (files.add normal).paths[index]? = some other ↔
      files.paths[index]? = some other ∨ index = files.size ∧ normal = other := by
  show (files.paths ++ [normal])[index]? = some other ↔ _
  rw [List.getElem?_append]
  split
  · next hinside => simp [size, Nat.ne_of_lt hinside]
  · next houtside =>
      rw [List.getElem?_singleton, List.getElem?_eq_none (by omega)]
      simp only [size]
      split
      · simp
        omega
      · simp
        omega

/-- Each number of a file leads to a path that stands at it. -/
theorem get_elem_paths_path {files : Registry} {index : Nat} (hknown : index < files.size) :
    files.paths[index]? = some (files.path (index + 1)) := by
  rw [path, List.getElem?_eq_getElem hknown, Option.getD_some]

/-- A path that is refused is answered with zero, and the registry stays as it is. -/
theorem register_of_refuses {files : Registry} {path : String} (hrefused : files.refuses path) :
    files.register path = (0, files) := by
  obtain ⟨hunknown, hfull⟩ := Bool.and_eq_true_iff.1 hrefused
  rw [register, Option.isNone_iff_eq_none.1 hunknown]
  exact if_pos (of_decide_eq_true hfull)

/-- Beyond the last number there are no paths. -/
theorem path_of_size_lt {files : Registry} {number : Nat} (h : files.size < number) :
    files.path number = "" := by
  cases number with
  | zero => rfl
  | succ index =>
      have houtside : files.paths.length ≤ index := Nat.le_of_lt_succ h
      rw [path, List.getElem?_eq_none houtside, Option.getD_none]

namespace Consistent

variable {files : Registry} {normal other path : String}

/-- A path that the registry does not hold is not found. -/
theorem lookup_eq_none (h : files.Consistent) (hnew : normal ∉ files.paths) :
    files.numbers.lookup normal = none := by
  rw [Option.eq_none_iff_forall_ne_some]
  intro number hfound
  obtain ⟨index, -, hstands⟩ := (h.lookup_iff normal number).1 hfound
  exact hnew (List.mem_of_getElem? hstands)

/-- A path that stands at a number is found under it. -/
theorem number_of_eq (h : files.Consistent) {index : Nat}
    (hstands : files.paths[index]? = some normal) : files.numberOf normal = index + 1 := by
  rw [numberOf, (h.lookup_iff normal (index + 1)).2 ⟨index, rfl, hstands⟩, Option.getD_some]

/-- A path that the registry does not hold has no number. -/
theorem number_of_eq_zero (h : files.Consistent) (hnew : normal ∉ files.paths) :
    files.numberOf normal = 0 := by
  rw [numberOf, h.lookup_eq_none hnew, Option.getD_none]

/-- The number of a path that the registry holds leads back to it. -/
theorem path_number_of (h : files.Consistent) (hheld : normal ∈ files.paths) :
    files.path (files.numberOf normal) = normal := by
  obtain ⟨index, hstands⟩ := List.mem_iff_getElem?.1 hheld
  rw [h.number_of_eq hstands, Registry.path, hstands, Option.getD_some]

/-- No path is found under a number that no path has. -/
theorem number_of_le_size (h : files.Consistent) (normal : String) :
    files.numberOf normal ≤ files.size := by
  by_cases hheld : normal ∈ files.paths
  · obtain ⟨index, hstands⟩ := List.mem_iff_getElem?.1 hheld
    rw [h.number_of_eq hstands]
    exact (List.getElem?_eq_some_iff.1 hstands).1
  · rw [h.number_of_eq_zero hheld]
    exact Nat.zero_le _

/-- Different paths that the registry holds have different numbers. -/
theorem number_of_inj (h : files.Consistent) (hheld : normal ∈ files.paths)
    (hotherHeld : other ∈ files.paths) :
    files.numberOf normal = files.numberOf other ↔ normal = other := by
  constructor
  · intro hsame
    rw [← h.path_number_of hheld, hsame, h.path_number_of hotherHeld]
  · exact congrArg files.numberOf

/-- The numbers of the paths that the registry holds are counted from one on. -/
theorem map_number_of_paths (h : files.Consistent) :
    files.paths.map files.numberOf = List.range' 1 files.size := by
  apply List.ext_getElem
  · simp [size]
  · intro index hinside _
    rw [List.length_map] at hinside
    rw [List.getElem_map, List.getElem_range', h.number_of_eq (List.getElem?_eq_getElem hinside)]
    omega

/-- A registry stays consistent if a path that it does not hold is added. -/
theorem add (h : files.Consistent) (hnew : normal ∉ files.paths) :
    (files.add normal).Consistent := by
  constructor
  · simp [Registry.add, size, h.next_eq]
  · intro other number
    simp only [get_elem_paths_add, lookup_numbers_add]
    by_cases hsame : other = normal
    · -- The added path stands at the next number, and at no other since it is new.
      subst hsame
      have helsewhere : ∀ index, files.paths[index]? ≠ some other :=
        fun index hstands => hnew (List.mem_of_getElem? hstands)
      simp [helsewhere, h.next_eq, eq_comm]
    · simp [hsame, Ne.symm hsame, h.lookup_iff]

/-- A registration finds a path that the registry holds, adds one that it does not, or refuses the
path because no number is left. -/
theorem register_cases (h : files.Consistent) (path : String) :
    (Path.normalise path ∈ files.paths ∧
      files.register path = (files.numberOf (Path.normalise path), files)) ∨
    (Path.normalise path ∉ files.paths ∧ files.size < lastNumber ∧
      files.register path = (files.size + 1, files.add (Path.normalise path))) ∨
    (Path.normalise path ∉ files.paths ∧ lastNumber ≤ files.size ∧
      files.register path = (0, files)) := by
  by_cases hheld : Path.normalise path ∈ files.paths
  · obtain ⟨index, hstands⟩ := List.mem_iff_getElem?.1 hheld
    have hfound := (h.lookup_iff _ _).2 ⟨index, rfl, hstands⟩
    exact .inl ⟨hheld, by simp [Registry.register, numberOf, hfound]⟩
  · have hmissing := h.lookup_eq_none hheld
    simp only [Registry.register, hmissing, h.next_eq]
    by_cases hroom : files.size < lastNumber
    · exact .inr (.inl ⟨hheld, hroom, if_neg (by omega)⟩)
    · exact .inr (.inr ⟨hheld, by omega, if_pos (by omega)⟩)

/-- A registration is answered with zero if and only if it is complained about. -/
theorem register_eq_zero_iff (h : files.Consistent) (path : String) :
    (files.register path).1 = 0 ↔ (files.complaint? path).isSome := by
  have hrefused : (files.complaint? path).isSome ↔ files.refuses path := by simp [complaint?]
  rw [hrefused, refuses, Bool.and_eq_true, decide_eq_true_iff, h.next_eq, Nat.lt_succ_iff]
  rcases h.register_cases path with
    ⟨hheld, hfound⟩ | ⟨hnew, hroom, hadded⟩ | ⟨hnew, hfull, hunchanged⟩
  · obtain ⟨index, hstands⟩ := List.mem_iff_getElem?.1 hheld
    have hknown := (h.lookup_iff _ _).2 ⟨index, rfl, hstands⟩
    simp [hfound, h.number_of_eq hstands, hknown]
  · simp [hadded, Nat.not_le.2 hroom]
  · simp [hunchanged, h.lookup_eq_none hnew, hfull]

/-- A registration keeps a registry consistent. -/
theorem register (h : files.Consistent) (path : String) : (files.register path).2.Consistent := by
  rcases h.register_cases path with ⟨-, hfound⟩ | ⟨hnew, -, hadded⟩ | ⟨-, -, hrefused⟩
  · rwa [hfound]
  · rw [hadded]
    exact h.add hnew
  · rwa [hrefused]

/-- Any number of registrations keep a registry consistent. -/
theorem register_all (h : files.Consistent) (paths : List String) :
    (files.registerAll paths).2.Consistent := by
  induction paths generalizing files with
  | nil => exact h
  | cons path rest ih => exact ih (h.register path)

/-- After some registrations, a registry holds what it held before and the normal forms that came
first, as long as there were numbers for them. -/
theorem paths_register_all (h : files.Consistent) (paths : List String) :
    (files.registerAll paths).2.paths = files.paths ++
      (firsts id files.paths (paths.map Path.normalise)).take (lastNumber - files.size) := by
  induction paths generalizing files with
  | nil => simp [Registry.registerAll, firsts]
  | cons path rest ih =>
      have hlater := ih (h.register path)
      have hunfolded : (files.registerAll (path :: rest)).2 =
          ((files.register path).2.registerAll rest).2 := rfl
      rw [hunfolded, hlater, List.map_cons, firsts]
      rcases h.register_cases path with
        ⟨hheld, hfound⟩ | ⟨hnew, hroom, hadded⟩ | ⟨hnew, hfull, hrefused⟩
      · have hsame := @firsts_congr _ _ _ id (Path.normalise path :: files.paths) files.paths
          (by simpa using hheld) (rest.map Path.normalise)
        rw [hfound, id, if_pos hheld, hsame]
      · have hsame := @firsts_congr _ _ _ id (files.add (Path.normalise path)).paths
          (Path.normalise path :: files.paths) (by simp [Registry.add, or_comm])
          (rest.map Path.normalise)
        have hleft : lastNumber - files.size =
            lastNumber - (files.add (Path.normalise path)).size + 1 := by
          simp only [size, Registry.add, List.length_append, List.length_singleton] at hroom ⊢
          omega
        rw [hadded, id, if_neg hnew, hsame, hleft, List.take_succ_cons]
        simp [Registry.add]
      · have hnone : lastNumber - files.size = 0 := by omega
        rw [hrefused, hnone, List.take_zero, List.take_zero]

/-- What stands at a number stands there after any registrations. -/
theorem get_elem_paths_register_all (h : files.Consistent) {index : Nat}
    (hstands : files.paths[index]? = some normal) (later : List String) :
    (files.registerAll later).2.paths[index]? = some normal := by
  have hinside : index < files.paths.length := (List.getElem?_eq_some_iff.1 hstands).1
  rw [h.paths_register_all, List.getElem?_append_left hinside, hstands]

/-- A number leads to the same path after any registrations. -/
theorem path_register_all (h : files.Consistent) {number : Nat} (hknown : number ≤ files.size)
    (later : List String) : (files.registerAll later).2.path number = files.path number := by
  cases number with
  | zero => rfl
  | succ index =>
      have hstands := h.get_elem_paths_register_all (get_elem_paths_path hknown) later
      rw [Registry.path, hstands, Option.getD_some]

/-- The path that is registered is found under the number that the registration answers. -/
theorem number_of_register (h : files.Consistent) (path : String) :
    (files.register path).2.numberOf (Path.normalise path) = (files.register path).1 := by
  rcases h.register_cases path with ⟨-, hfound⟩ | ⟨hnew, -, hadded⟩ | ⟨hnew, -, hrefused⟩
  · rw [hfound]
  · rw [hadded]
    exact (h.add hnew).number_of_eq (get_elem_paths_add.2 (.inr ⟨rfl, rfl⟩))
  · rw [hrefused]
    exact h.number_of_eq_zero hnew

/-- A path keeps the answer to its registration for good, be it a number or a refusal. -/
theorem number_of_register_all (h : files.Consistent) (path : String) (later : List String) :
    ((files.register path).2.registerAll later).2.numberOf (Path.normalise path) =
      (files.register path).1 := by
  have hnext := h.register path
  rw [← h.number_of_register path]
  by_cases hheld : Path.normalise path ∈ (files.register path).2.paths
  · obtain ⟨index, hstands⟩ := List.mem_iff_getElem?.1 hheld
    rw [hnext.number_of_eq hstands,
      (hnext.register_all later).number_of_eq (hnext.get_elem_paths_register_all hstands later)]
  · -- Without a number, the path was refused, and nothing else can be added after it.
    have hunchanged : ((files.register path).2.registerAll later).2.paths =
        (files.register path).2.paths := by
      rw [hnext.paths_register_all]
      rcases h.register_cases path with ⟨hknown, hfound⟩ | ⟨-, -, hadded⟩ | ⟨-, hfull, hrefused⟩
      · rw [hfound] at hheld
        exact absurd hknown hheld
      · simp [hadded, Registry.add] at hheld
      · simp [hrefused, Nat.sub_eq_zero_of_le hfull]
    rw [hnext.number_of_eq_zero hheld,
      (hnext.register_all later).number_of_eq_zero (hunchanged ▸ hheld)]

/-- The numbers given out are the ones under which the registry finds the paths in the end. -/
theorem numbers_register_all (h : files.Consistent) (paths : List String) :
    (files.registerAll paths).1 =
      (paths.map Path.normalise).map (files.registerAll paths).2.numberOf := by
  induction paths generalizing files with
  | nil => rfl
  | cons path rest ih =>
      have hfirst := h.number_of_register_all path rest
      have hlater := ih (h.register path)
      simp only [List.map_cons]
      exact congrArg₂ List.cons hfirst.symm hlater

/-- A diagnostic about a registered file is printed the same after any registrations. -/
theorem print_register_all (h : files.Consistent) {diagnostic : Diagnostic}
    (hknown : diagnostic.location.file ≤ files.size) (later : List String) :
    diagnostic.print (some (files.registerAll later).2) = diagnostic.print (some files) := by
  have hsamePath := h.path_register_all hknown later
  simp only [Diagnostic.print, Location.heading, hsamePath]

end Consistent

/-- Paths that are registered after others are registered with the registry that these leave. -/
theorem register_all_append (files : Registry) (first second : List String) :
    (files.registerAll (first ++ second)).2 =
      ((files.registerAll first).2.registerAll second).2 := by
  induction first generalizing files with
  | nil => rfl
  | cons path rest ih => exact ih (files.register path).2

/-- If there are numbers for all of some paths, there are for those in front of any others. -/
theorem enough_of_append {first second : List String}
    (henough : ((first ++ second).map Path.normalise).dedup.length ≤ lastNumber) :
    (first.map Path.normalise).dedup.length ≤ lastNumber := by
  rw [← length_firsts_id, List.map_append, firsts_append, List.length_append] at henough
  rw [← length_firsts_id]
  omega

section Enough

-- In what follows, there are numbers for the normal forms of all paths.
variable {paths : List String} (henough : (paths.map Path.normalise).dedup.length ≤ lastNumber)
include henough

/-- In the end all normal forms are held, in the order in which they came first. -/
theorem paths_register_all_empty :
    (empty.registerAll paths).2.paths = firsts id [] (paths.map Path.normalise) := by
  have hfew : (firsts id [] (paths.map Path.normalise)).length ≤ lastNumber := by
    rwa [length_firsts_id]
  rw [consistent_empty.paths_register_all]
  exact List.take_of_length_le hfew

/-- In the end the normal form of every path is held. -/
theorem mem_paths_register_all_empty {path : String} (hregistered : path ∈ paths) :
    Path.normalise path ∈ (empty.registerAll paths).2.paths := by
  rw [paths_register_all_empty henough, mem_firsts_id]
  exact ⟨List.mem_map_of_mem hregistered, List.not_mem_nil⟩

/-- In the end there are as many files as different normal forms. -/
theorem size_register_all_empty :
    (empty.registerAll paths).2.size = (paths.map Path.normalise).dedup.length := by
  rw [size, paths_register_all_empty henough, length_firsts_id]

/-- The numbers are given out one after the other, counted from one on. -/
theorem firsts_numbers_register_all :
    firsts id [] (empty.registerAll paths).1 =
      List.range' 1 (empty.registerAll paths).2.size := by
  have hconsistent := consistent_empty.register_all paths
  have hinjective : ∀ first ∈ [] ++ paths.map Path.normalise,
      ∀ second ∈ [] ++ paths.map Path.normalise,
        (empty.registerAll paths).2.numberOf first = (empty.registerAll paths).2.numberOf second →
          first = second := by
    simp only [List.nil_append, List.forall_mem_map]
    exact fun first hfirst second hsecond =>
      (hconsistent.number_of_inj (mem_paths_register_all_empty henough hfirst)
        (mem_paths_register_all_empty henough hsecond)).1
  have hfirstNumbers := firsts_map hinjective
  rw [List.map_nil, ← consistent_empty.numbers_register_all, ← paths_register_all_empty henough]
    at hfirstNumbers
  exact hfirstNumbers.trans hconsistent.map_number_of_paths

/-- Two registrations give out the same number if and only if the normal forms are the same. -/
theorem number_eq_iff {call other : String × Nat}
    (hcall : call ∈ paths.zip (empty.registerAll paths).1)
    (hother : other ∈ paths.zip (empty.registerAll paths).1) :
    call.2 = other.2 ↔ Path.normalise call.1 = Path.normalise other.1 := by
  have hconsistent := consistent_empty.register_all paths
  have hpaired := List.zip_map' (f := id)
    (g := (empty.registerAll paths).2.numberOf ∘ Path.normalise) (l := paths)
  rw [List.map_id] at hpaired
  rw [consistent_empty.numbers_register_all, List.map_map, hpaired] at hcall hother
  obtain ⟨path, hregistered, rfl⟩ := List.mem_map.1 hcall
  obtain ⟨otherPath, hotherRegistered, rfl⟩ := List.mem_map.1 hother
  exact hconsistent.number_of_inj (mem_paths_register_all_empty henough hregistered)
    (mem_paths_register_all_empty henough hotherRegistered)

/-- The number that a path is given leads to its normal form after any further registrations. -/
theorem path_register_all_register {earlier rest : List String} {path : String}
    (hparted : paths = earlier ++ path :: rest) (later : List String) :
    let next := ((empty.registerAll earlier).2.register path).2
    (next.registerAll later).2.path ((empty.registerAll earlier).2.register path).1 =
      Path.normalise path := by
  intro next
  have hbefore := consistent_empty.register_all earlier
  have hafter : next.Consistent := hbefore.register path
  have hheld : Path.normalise path ∈ next.paths := by
    have hreached : next = (empty.registerAll (earlier ++ [path])).2 :=
      (register_all_append empty earlier [path]).symm
    rw [hparted, ← List.singleton_append, ← List.append_assoc] at henough
    rw [hreached]
    exact mem_paths_register_all_empty (enough_of_append henough) (by simp)
  rw [← hbefore.number_of_register path,
    hafter.path_register_all (hafter.number_of_le_size _) later, hafter.path_number_of hheld]

end Enough

/-- Numbers lead to normal forms of paths, one to one and for good. Let paths be registered one
after the other with the registry without files, and let there be numbers for all their normal
forms. The numbers given out are, each where it is given out first, those from one to the number of
files. Two registrations give out the same number if and only if the normal forms are the same, so
there are as many files as different normal forms. The number that a registration gives out leads
to the normal form at once and after any further registrations, even if these are refused. Zero and
the numbers beyond the last file lead to the empty text. The text of a diagnostic about one of the
files is not changed by further registrations. -/
theorem registered_for_good (paths : List String)
    (henough : (paths.map Path.normalise).dedup.length ≤ lastNumber) :
    let numbers := (empty.registerAll paths).1
    let files := (empty.registerAll paths).2
    firsts id [] numbers = List.range' 1 files.size ∧
    (numbers.length = paths.length ∧
      ∀ call ∈ paths.zip numbers, ∀ other ∈ paths.zip numbers,
        call.2 = other.2 ↔ Path.normalise call.1 = Path.normalise other.1) ∧
    files.size = (paths.map Path.normalise).dedup.length ∧
    (∀ earlier path rest, paths = earlier ++ path :: rest →
      let number := ((empty.registerAll earlier).2.register path).1
      let next := ((empty.registerAll earlier).2.register path).2
      next.path number = Path.normalise path ∧
        ∀ later, (next.registerAll later).2.path number = Path.normalise path) ∧
    (files.path 0 = "" ∧ ∀ number, files.size < number → files.path number = "") ∧
    ∀ diagnostic : Diagnostic, 0 < diagnostic.location.file →
      diagnostic.location.file ≤ files.size → ∀ later,
        diagnostic.print (some (files.registerAll later).2) = diagnostic.print (some files) := by
  intro numbers files
  have hconsistent : files.Consistent := consistent_empty.register_all paths
  have hgiven : numbers = (paths.map Path.normalise).map files.numberOf :=
    consistent_empty.numbers_register_all paths
  refine ⟨firsts_numbers_register_all henough, ⟨by simp [hgiven], ?_⟩,
    size_register_all_empty henough, ?_, ⟨rfl, fun number => files.path_of_size_lt⟩, ?_⟩
  · exact fun call hcall other hother => number_eq_iff henough hcall hother
  · intro earlier path rest hparted number next
    have hfound := fun later => path_register_all_register henough hparted later
    exact ⟨hfound [], hfound⟩
  · exact fun diagnostic _ hknown later => hconsistent.print_register_all hknown later

/-- The paths of two schemas, one of which is written in two ways. -/
def orderPaths : List String :=
  ["schemas/./order.avsc", "order.avsc", "schemas//order.avsc"]

/-- Both ways to write a path lead to one number, and a diagnostic about the other file is printed
with its path whatever is registered later. -/
theorem registered_for_good_orders :
    (orderPaths.map Path.normalise).dedup.length ≤ lastNumber ∧
      firsts id [] (empty.registerAll orderPaths).1 = List.range' 1 2 ∧
      (("schemas/./order.avsc", 1) ∈ orderPaths.zip (empty.registerAll orderPaths).1 ∧
        ("schemas//order.avsc", 1) ∈ orderPaths.zip (empty.registerAll orderPaths).1 ∧
        Path.normalise "schemas/./order.avsc" = Path.normalise "schemas//order.avsc") ∧
      (orderPaths = ["schemas/./order.avsc"] ++ "order.avsc" :: ["schemas//order.avsc"] ∧
        ∀ later, (((empty.registerAll ["schemas/./order.avsc"]).2.register
          "order.avsc").2.registerAll later).2.path 2 = "order.avsc") ∧
      (empty.registerAll orderPaths).2.path 3 = "" ∧
      ∀ later, Diagnostic.print (some ((empty.registerAll orderPaths).2.registerAll later).2)
          ⟨.error, "type is missing", ⟨2, 4, 7⟩⟩ = "order.avsc:4:7: error: type is missing\n" := by
  have henough : (orderPaths.map Path.normalise).dedup.length ≤ lastNumber := by decide
  obtain ⟨hcounted, ⟨-, hsame⟩, -, hkept, ⟨-, hbeyond⟩, hprinted⟩ :=
    registered_for_good orderPaths henough
  have hfirst : ("schemas/./order.avsc", 1) ∈ orderPaths.zip (empty.registerAll orderPaths).1 := by
    decide
  have hthird : ("schemas//order.avsc", 1) ∈ orderPaths.zip (empty.registerAll orderPaths).1 := by
    decide
  have hparts : orderPaths =
      ["schemas/./order.avsc"] ++ "order.avsc" :: ["schemas//order.avsc"] := rfl
  refine ⟨henough, hcounted, ⟨hfirst, hthird, (hsame _ hfirst _ hthird).1 rfl⟩, ⟨hparts, ?_⟩,
    hbeyond 3 (by decide), ?_⟩
  · exact (hkept _ _ _ hparts).2
  · intro later
    rw [hprinted ⟨.error, "type is missing", ⟨2, 4, 7⟩⟩ (by decide) (by decide) later]
    decide

end AvroSchema.File.Registry
