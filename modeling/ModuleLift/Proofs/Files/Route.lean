import ModuleLift.Files.FileTree

/-! Paths from the root, and the steps that their text stands for. -/

namespace ModuleLift

namespace Route

/-- Whether a string can name a file or a directory. -/
def isName (name : String) : Bool :=
  name != "" && name != "." && name != ".." && !name.toList.contains '/'

/-- A path from the root that goes down by names only. -/
structure Rooted (r : Route) : Prop where
  root : r.root = "/"
  names : ∀ name ∈ r.names, isName name

/-- A name is not empty, no step and without a slash. -/
theorem isName_iff {name : String} :
    isName name ↔ name ≠ "" ∧ name ≠ "." ∧ name ≠ ".." ∧ '/' ∉ name.toList := by
  simp [isName, and_assoc]

/-- Paths from the root are told apart by their names. -/
theorem Rooted.eq_of_names {r r' : Route} (rooted : r.Rooted) (rooted' : r'.Rooted)
    (same : r.names = r'.names) : r = r' := by
  -- Both start at the same root.
  obtain ⟨root, names⟩ := r
  obtain ⟨root', names'⟩ := r'
  obtain rfl : root = "/" := rooted.root
  obtain rfl : root' = "/" := rooted'.root
  exact congrArg (Route.mk "/") same

section Absolute

/-- The segments of a path hold no slash. -/
theorem slash_of_mem_segments {path segment : List Char} (held : segment ∈ segments path) :
    '/' ∉ segment := by
  rw [segments] at held
  induction path generalizing segment with
  | nil =>
    rw [List.splitOn_nil, List.mem_singleton] at held
    simp [held]
  | cons c rest ih =>
    rw [List.splitOn, List.splitOnP_cons_eq_if_modifyHead] at held
    split at held
    · rcases List.mem_cons.mp held with rfl | later
      · simp
      · exact ih later
    · -- A character that is no slash goes to the first of the segments behind it.
      rename_i other
      change segment ∈ (rest.splitOn '/').modifyHead (List.cons c) at held
      cases split : rest.splitOn '/' with
      | nil => simp [split] at held
      | cons first more =>
        rw [split, List.modifyHead_cons, List.mem_cons] at held
        rw [split] at ih
        rcases held with rfl | later
        · rw [List.mem_cons, not_or]
          exact ⟨fun same => other (beq_iff_eq.mpr same.symm), ih List.mem_cons_self⟩
        · exact ih (List.mem_cons_of_mem _ later)

/-- What a path is split into are names, or steps back. -/
theorem isName_of_mem_ofText {path name : String} (held : name ∈ (ofText path).names) :
    name = ".." ∨ isName name := by
  -- Empty segments and steps in place are left out, and slashes lie between segments.
  simp only [ofText, List.mem_filter, List.mem_map, Bool.and_eq_true, decide_eq_true_eq] at held
  obtain ⟨⟨segment, inside, rfl⟩, empty, dot⟩ := held
  by_cases back : String.ofList segment = ".."
  · exact .inl back
  · refine .inr (isName_iff.mpr ⟨empty, dot, back, ?_⟩)
    rw [String.toList_ofList]
    exact slash_of_mem_segments inside

/-- Taking back steps leaves names. -/
theorem isName_of_mem_collapse {kept names : List String} (known : ∀ name ∈ kept, isName name)
    (steps : ∀ name ∈ names, name = ".." ∨ isName name) :
    ∀ name ∈ collapse kept names, isName name := by
  induction names generalizing kept with
  | nil => exact known
  | cons name rest ih =>
    refine ih ?_ fun other held => steps other (List.mem_cons_of_mem _ held)
    intro other held
    -- A step up takes a name away, and any other is a name.
    split at held
    · exact known other (List.dropLast_subset _ held)
    · rename_i forward
      rcases List.mem_append.mp held with held | held
      · exact known other held
      · rw [List.mem_singleton.mp held]
        exact (steps name List.mem_cons_self).resolve_left forward

/-- A path seen from a working directory is one from the root. -/
theorem rooted_absolute {directory : List String} (known : ∀ name ∈ directory, isName name)
    (path : String) : ((ofText path).absolute directory).Rooted := by
  -- Steps back are carried out on names, so names are what is left.
  refine ⟨rfl, isName_of_mem_collapse ?_ fun name held => isName_of_mem_ofText held⟩
  split
  · exact known
  · simp

end Absolute

section Parts

variable {r : Route}

/-- The directory of a path from the root is one. -/
theorem Rooted.parent (rooted : r.Rooted) : r.parent.Rooted :=
  ⟨rooted.root, fun name held => rooted.names name (List.dropLast_subset _ held)⟩

/-- The part of a name before its extension holds no other characters than the name. -/
theorem stem_subset (name : List Char) : stem name ⊆ name := by
  -- What is kept is a first part of the name, or all of it.
  rw [stem]
  split
  · exact List.take_subset _ _
  · exact List.Subset.refl _

/-- A file stays in its directory when its extension is changed. -/
theorem parent_withExtension (r : Route) (extension : String) :
    (r.withExtension extension).parent = r.parent := by
  -- Only the last name is changed, if there is one.
  rw [withExtension]
  split
  · simp [parent]
  · rfl

/-- A name with the extension of a module is a name. -/
theorem isName_stem_append {name : String} (named : isName name) :
    isName (String.ofList (stem name.toList) ++ ".mjs") := by
  have long : 4 ≤ (String.ofList (stem name.toList) ++ ".mjs").toList.length := by
    rw [String.toList_append, List.length_append]
    exact Nat.le_add_left _ _
  -- The names that are left out are all shorter than the extension.
  have other {short : String} (few : short.toList.length < 4) :
      String.ofList (stem name.toList) ++ ".mjs" ≠ short := by
    rintro rfl
    omega
  refine isName_iff.mpr ⟨other (by decide), other (by decide), other (by decide), ?_⟩
  rw [String.toList_append, String.toList_ofList, List.mem_append, not_or]
  exact ⟨fun held => (isName_iff.mp named).2.2.2 (stem_subset _ held), by decide⟩

/-- A path from the root stays one when its extension is changed. -/
theorem Rooted.withExtension (rooted : r.Rooted) : (r.withExtension ".mjs").Rooted := by
  -- The new last name is made of the old one.
  rw [Route.withExtension]
  split
  · rename_i name last
    refine ⟨rooted.root, fun other held => ?_⟩
    rcases List.mem_append.mp held with held | held
    · exact rooted.names other (List.dropLast_subset _ held)
    · rw [List.mem_singleton.mp held]
      exact isName_stem_append (rooted.names name (List.mem_of_getLast? last))
  · exact rooted

end Parts

section Steps

variable {r : Route}

/-- A path from the root is written with a slash before each name. -/
theorem text_of_rooted (rooted : r.Rooted) : r.text = "/" ++ "/".intercalate r.names := by
  simp [text, rooted.root]

/-- A path of names does not end in a slash. -/
theorem getLast?_intercalate {names : List String} (some_ : names ≠ [])
    (known : ∀ name ∈ names, isName name) :
    ∃ c, (['/'].intercalate (names.map String.toList)).getLast? = some c ∧ c ≠ '/' := by
  induction names with
  | nil => exact absurd rfl some_
  | cons name rest ih =>
    cases rest with
    | nil =>
      -- The last letter of a path is the last one of its last name.
      obtain ⟨filled, _, _, slash⟩ := isName_iff.mp (known name List.mem_cons_self)
      have full : name.toList ≠ [] := by simpa using filled
      refine ⟨name.toList.getLast full, ?_, fun same => slash ?_⟩
      · simpa using List.getLast?_eq_some_getLast full
      · rw [← same]
        exact List.getLast_mem full
    | cons other rest =>
      obtain ⟨c, last, differs⟩ := ih (List.cons_ne_nil _ _) fun name held =>
        known name (List.mem_cons_of_mem _ held)
      refine ⟨c, ?_, differs⟩
      rw [List.map_cons, List.map_cons, List.intercalate_cons_cons, List.getLast?_append,
        ← List.map_cons, last]
      rfl

/-- The steps of a path from the root are its names. -/
theorem steps_text (rooted : r.Rooted) (named : r.names ≠ []) :
    FileTree.steps r.text = r.names := by
  have letters : r.text.toList = ['/'].intercalate ([] :: r.names.map String.toList) := by
    rw [text_of_rooted rooted, String.toList_append, String.toList_intercalate]
    cases names : r.names with
    | nil => exact absurd names named
    | cons first rest => rw [List.map_cons, List.intercalate_cons_cons]; rfl
  -- Only the slash at the start leaves an empty segment.
  have split : segments r.text.toList = [] :: r.names.map String.toList := by
    rw [segments, letters]
    refine List.splitOn_intercalate '/' (fun segment held => ?_) (List.cons_ne_nil _ _)
    rcases List.mem_cons.mp held with rfl | held
    · exact List.not_mem_nil
    · obtain ⟨name, member, rfl⟩ := List.mem_map.mp held
      exact (isName_iff.mp (rooted.names name member)).2.2.2
  have kept : (((segments r.text.toList).map String.ofList).filter (· ≠ "")) = r.names := by
    rw [split, List.map_cons, List.map_map]
    have same : r.names.map (String.ofList ∘ String.toList) = r.names := by simp
    rw [same, List.filter_cons_of_neg (by simp), List.filter_eq_self]
    exact fun name held => by simpa using (isName_iff.mp (rooted.names name held)).1
  have open_ : Path.endsInSlash r.text = false := by
    obtain ⟨c, last, differs⟩ := getLast?_intercalate named rooted.names
    have ending : r.text.toList.getLast? = some c := by
      rw [text_of_rooted rooted, String.toList_append, String.toList_intercalate,
        List.getLast?_append]
      change (['/'].intercalate (r.names.map String.toList)).getLast?.or _ = _
      rw [last]
      rfl
    simp [Path.endsInSlash, Text.ofString, ending, differs]
  rw [FileTree.steps, open_, if_neg Bool.false_ne_true]
  exact kept

/-- The root is reached by staying. -/
theorem steps_root (rooted : r.Rooted) (named : r.names = []) : FileTree.steps r.text = ["."] := by
  -- The text of the root is a slash, with nothing behind it.
  rw [text_of_rooted rooted, named]
  decide

/-- A path from the root starts with a slash. -/
theorem head?_text (rooted : r.Rooted) : r.text.toList.head? = some '/' := by
  -- The root is the first letter of the text.
  rw [text_of_rooted rooted, String.toList_append]
  rfl

end Steps

end Route

end ModuleLift
