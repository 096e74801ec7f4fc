import ModuleLift.Files.Access
import ModuleLift.Proofs.Files.Route
import ModuleLift.Proofs.Text.Utf8

/-! What a path leads to after files were written: as long as the directories are the same, paths
lead to the same places. -/

namespace ModuleLift

/-- The file that holds a text. -/
def Entry.ofString (content : String) : Entry := .file (content.toList.flatMap Text.encodeChar)

namespace FileTree

variable {t t' : FileTree}

section Entries

/-- Only entries of the place are taken out. -/
theorem lookup_filter_ne {place other : List String} (differs : other ≠ place)
    (entries : List (List String × Entry)) :
    (entries.filter (·.1 != place)).lookup other = entries.lookup other := by
  -- An entry that is taken out is not the one that is looked for.
  induction entries with
  | nil => rfl
  | cons first rest ih =>
    obtain ⟨name, value⟩ := first
    rw [List.filter_cons, List.lookup_cons]
    by_cases kept : name = place
    · rw [if_neg (by simp [kept]), ih, beq_false_of_ne (by rwa [kept])]
    · rw [if_pos (by simpa using kept), List.lookup_cons, ih]

/-- What is put at a place is found there, and all else is as before. -/
theorem get_put (t : FileTree) {place : List String} (named : place ≠ []) (entry : Entry)
    (other : List String) :
    (t.put place entry).get other = if other = place then some entry else t.get other := by
  -- The root is a directory whatever the entries are; any other place is looked up among them.
  by_cases root : other = []
  · rw [root, if_neg (Ne.symm named)]
    rfl
  · have filled : other.isEmpty = false := by simpa using root
    rw [get, get, filled, if_neg Bool.false_ne_true, if_neg Bool.false_ne_true, put,
      List.lookup_cons]
    by_cases same : other = place
    · rw [if_pos same, beq_iff_eq.mpr same]
    · rw [if_neg same, beq_false_of_ne same]
      exact lookup_filter_ne same t.entries

end Entries

section Directories

/-- Whether two trees have the same directories. -/
def SameDirectories (t t' : FileTree) : Prop :=
  ∀ place, t.get place = some .directory ↔ t'.get place = some .directory

/-- A tree has the directories it has. -/
theorem SameDirectories.refl (t : FileTree) : SameDirectories t t := fun _ => Iff.rfl

/-- Two trees have the same directories whichever is named first. -/
theorem SameDirectories.symm (same : SameDirectories t t') : SameDirectories t' t :=
  fun place => (same place).symm

/-- Having the same directories is passed on. -/
theorem SameDirectories.trans {t'' : FileTree} (same : SameDirectories t t')
    (later : SameDirectories t' t'') : SameDirectories t t'' :=
  fun place => (same place).trans (later place)

/-- A place that holds no directory is not the root. -/
theorem ne_root {place : List String} (free : t.get place ≠ some .directory) : place ≠ [] := by
  -- The root is always a directory.
  rintro rfl
  exact free rfl

/-- A file that takes no directory's place leaves the directories as they are. -/
theorem sameDirectories_put {place : List String} (free : t.get place ≠ some .directory)
    (bytes : List UInt8) : SameDirectories t (t.put place (.file bytes)) := by
  -- Only one place changes, and it holds no directory before or after.
  intro other
  rw [get_put t (ne_root free)]
  split
  · rename_i same
    subst same
    exact iff_of_false free (by simp)
  · exact Iff.rfl

/-- Steps that lead somewhere lead to the same place in a tree with the same directories. -/
theorem follow_of_same (same : SameDirectories t t') {place reached : List String}
    {steps : List String} (found : t.follow place steps = .ok reached) :
    t'.follow place steps = .ok reached := by
  -- Each step is taken from a directory, and that is one in both trees.
  induction steps generalizing place with
  | nil => exact found
  | cons step rest ih =>
    rw [follow] at found ⊢
    split at found
    · cases found
    · cases found
    · rename_i here
      rw [(same place).mp here]
      dsimp only
      split
      · rename_i stays
        rw [if_pos stays] at found
        exact ih found
      · rename_i moves
        rw [if_neg moves] at found
        split
        · rename_i back
          rw [if_pos back] at found
          exact ih found
        · rename_i down
          rw [if_neg down] at found
          split
          · rename_i long
            rw [if_pos long] at found
            cases found
          · rename_i fits
            rw [if_neg fits] at found
            exact ih found

variable {directory : List String} {path : String}

/-- A path is located at the same place among the same directories. -/
theorem locate_of_same (same : SameDirectories t t') {place : List String}
    (found : t.locate directory path = .ok place) : t'.locate directory path = .ok place := by
  -- Too long a path is refused before any directory is looked at.
  rw [locate] at found ⊢
  split
  · rename_i long
    rw [if_pos long] at found
    cases found
  · rename_i fits
    rw [if_neg fits] at found
    exact follow_of_same same found

/-- What a path leads to is what is found at its place. -/
theorem find_eq_ok {entry : Entry} : t.find directory path = .ok entry ↔
    ∃ place, t.locate directory path = .ok place ∧ t.get place = some entry := by
  -- A path is located first, and its place may be empty.
  rw [find]
  cases found : t.locate directory path with
  | error lost => simp [bind, Except.bind]
  | ok place => cases held : t.get place <;> simp [bind, Except.bind, held, pure, Except.pure]

/-- Whether a path leads to a file depends on its place alone. -/
theorem isFile_iff {text : Text} : t.isFile directory text ↔
    ∃ path place bytes, pathOf? text = some path ∧ t.locate directory path = .ok place ∧
      t.get place = some (.file bytes) := by
  -- A text that is no path leads nowhere.
  rw [isFile]
  constructor
  · intro holds
    split at holds
    · rename_i bytes found
      obtain ⟨path, named, found⟩ := Option.map_eq_some_iff.mp found
      obtain ⟨place, located, held⟩ := find_eq_ok.mp found
      exact ⟨path, place, bytes, named, located, held⟩
    · cases holds
  · rintro ⟨path, place, bytes, named, located, held⟩
    rw [named, Option.map_some, find_eq_ok.mpr ⟨place, located, held⟩]

/-- Characters of a path become their bytes. -/
theorem mapM_nameBytes? (chars : List Char) :
    (chars.map Letter.char).mapM nameBytes? = some (chars.map Text.encodeChar) := by
  -- Each letter is a character here, so each has bytes.
  induction chars with
  | nil => rfl
  | cons c rest ih =>
    rw [List.map_cons, List.mapM_cons, ih]
    rfl

/-- A path stands for itself. -/
theorem pathOf?_ofString (path : String) : pathOf? (Text.ofString path) = some path := by
  -- The bytes of the characters are decoded to the same characters.
  have decoded : Text.decode (path.toList.map Text.encodeChar).flatten =
      .ok (Text.ofString path) :=
    (congrArg Text.decode List.flatMap_def.symm).trans (Text.decodeFrom_flatMap 0 path.toList)
  rw [pathOf?, Text.ofString, mapM_nameBytes?]
  show ((Text.decode _).toOption >>= fun path => path.string?) = some path
  rw [decoded]
  exact Text.string?_ofString path

/-- Whether a path that is a string leads to a file. -/
theorem isFile_ofString : t.isFile directory (Text.ofString path) ↔
    ∃ bytes, t.find directory path = .ok (.file bytes) := by
  -- A string names the path that it spells.
  rw [isFile, pathOf?_ofString, Option.map_some]
  cases t.find directory path with
  | error lost => simp
  | ok entry => cases entry <;> simp

/-- A file that takes a file's place makes no path one that was none. -/
theorem isFile_put {place : List String} {old bytes : List UInt8}
    (held : t.get place = some (.file old)) (text : Text) :
    (t.put place (.file bytes)).isFile directory text = t.isFile directory text := by
  have free : t.get place ≠ some .directory := by simp [held]
  have same := sameDirectories_put free bytes
  -- Paths lead where they did, since no directory comes or goes, and at the place itself there is a
  -- file before and after.
  rw [Bool.eq_iff_iff, isFile_iff, isFile_iff]
  constructor
  · rintro ⟨path, at_, now, named, located, there⟩
    have located := locate_of_same same.symm located
    by_cases hit : at_ = place
    · exact ⟨path, at_, old, named, located, hit ▸ held⟩
    · rw [get_put t (ne_root free), if_neg hit] at there
      exact ⟨path, at_, now, named, located, there⟩
  · rintro ⟨path, at_, before, named, located, there⟩
    have located := locate_of_same same located
    by_cases hit : at_ = place
    · exact ⟨path, at_, bytes, named, located, by rw [get_put t (ne_root free), if_pos hit]⟩
    · exact ⟨path, at_, before, named, located,
        by rw [get_put t (ne_root free), if_neg hit, there]⟩

/-- Whether a path leads to a directory depends on its place alone. -/
theorem isDirectory_iff : t.isDirectory directory path ↔
    ∃ place, t.locate directory path = .ok place ∧ t.get place = some .directory := by
  -- Whatever is found that is no directory answers the question.
  rw [isDirectory, ← find_eq_ok]
  cases t.find directory path with
  | error lost => simp
  | ok entry => cases entry <;> simp

end Directories

section Access

variable {directory : List String} {path : String}

/-- A path without a null character is reached where it is located. -/
theorem reach_eq_ok {place : List String} : t.reach directory path = .ok place ↔
    holdsNull path = false ∧ t.locate directory path = .ok place := by
  -- The null character is looked for first.
  rw [reach]
  cases holdsNull path with
  | true => simp
  | false => cases t.locate directory path <;> simp

/-- A file is read at its place. -/
theorem read_eq_ok {bytes : List UInt8} : t.read directory path = .ok bytes ↔
    holdsNull path = false ∧
      ∃ place, t.locate directory path = .ok place ∧ t.get place = some (.file bytes) := by
  -- Reaching the place may fail, and so may reading what is there.
  rw [read]
  cases reached : t.reach directory path with
  | error e =>
    refine iff_of_false (by simp) fun ⟨named, place, located, _⟩ => ?_
    rw [reach_eq_ok.mpr ⟨named, located⟩] at reached
    cases reached
  | ok place =>
    obtain ⟨named, located⟩ := reach_eq_ok.mp reached
    rw [located]
    cases held : t.get place with
    | none => simp [held]
    | some entry => cases entry <;> simp [held, named]

/-- A file reads the same in trees that have the same directories and hold the same at its
place. -/
theorem readText_congr (same : SameDirectories t t') {place : List String}
    (located : t.locate directory path = .ok place) (held : t'.get place = t.get place) :
    t'.readText directory path = t.readText directory path := by
  have reached : t'.reach directory path = t.reach directory path := by
    rw [reach, reach, located, locate_of_same same located]
  -- A path leads to one place only, so the one that is read is the one where both hold the same.
  have had : t'.read directory path = t.read directory path := by
    rw [read, read, reached]
    cases found : t.reach directory path with
    | error e => rfl
    | ok place' =>
      obtain rfl := Except.ok.inj (located.symm.trans (reach_eq_ok.mp found).2)
      dsimp only
      rw [held]
  rw [readText, readText, had]

/-- The text of a file is that of its bytes, with line breaks unified. -/
theorem readText_eq_ok {text : Text} : t.readText directory path = .ok text ↔
    ∃ bytes raw, t.read directory path = .ok bytes ∧ Text.decode bytes = .ok raw ∧
      Text.unifyBreaks raw = text := by
  -- Each of the three steps can only fail or hand on its result.
  rw [readText, bind_eq_ok]
  constructor
  · rintro ⟨bytes, had, more⟩
    obtain ⟨raw, decoded, unified⟩ := bind_eq_ok.mp more
    exact ⟨bytes, raw, mapError_eq_ok.mp had, mapError_eq_ok.mp decoded, Except.ok.inj unified⟩
  · rintro ⟨bytes, raw, had, decoded, rfl⟩
    exact ⟨bytes, mapError_eq_ok.mpr had, bind_eq_ok.mpr ⟨raw, mapError_eq_ok.mpr decoded, rfl⟩⟩

/-- A file is written at its place, unless that is a directory. -/
theorem write_eq_ok {bytes : List UInt8} : t.write directory path bytes = .ok t' ↔
    ∃ place, t.reach directory path = .ok place ∧ t.get place ≠ some .directory ∧
      t' = t.put place (.file bytes) := by
  -- What is found at the place decides: only a directory is in the way.
  rw [write]
  cases t.reach directory path with
  | error e => simp
  | ok place =>
    cases held : t.get place with
    | none => simp [held, eq_comm]
    | some entry => cases entry <;> simp [held, eq_comm]

/-- A text that has bytes is written as these. -/
theorem writeText_eq_ok {text : Text} : t.writeText directory path text = .ok (t', none) ↔
    ∃ bytes, Text.encode text = .ok bytes ∧ t.write directory path bytes = .ok t' := by
  -- A text without bytes leaves an empty file and a fault, so it is not this case.
  rw [writeText]
  cases Text.encode text with
  | error fault => simp [map_eq_ok]
  | ok bytes => simp [map_eq_ok]

/-- Nothing is made where there is a directory. -/
theorem ensureDirectories_eq {route : Route} (there : t.isDirectory directory route.text) :
    t.ensureDirectories directory route = .ok t := by
  obtain ⟨place, located, held⟩ := isDirectory_iff.mp there
  have once : t.ensureDirectory directory route.text = .ok t := by
    rw [ensureDirectory]
    cases made : t.makeDirectory directory route.text with
    | error e => simp [there]
    | ok other =>
      -- A directory cannot be made in the place of one.
      rw [makeDirectory] at made
      cases reached : t.reach directory route.text with
      | error e => simp [reached] at made
      | ok at_ =>
        obtain ⟨_, same⟩ := reach_eq_ok.mp reached
        obtain rfl := Except.ok.inj (located.symm.trans same)
        simp [reached, held] at made
  rw [ensureDirectories]
  cases route.names.length with
  | zero => exact once
  | succ depth => rw [ensureWithin, once]

end Access

section Rooted

variable {r : Route} {directory : List String}

/-- A name leads down, from a directory. -/
theorem follow_cons_name {place reached rest : List String} {name : String}
    (known : Route.isName name) :
    t.follow place (name :: rest) = .ok reached ↔ t.get place = some .directory ∧
      name.utf8ByteSize ≤ nameLimit ∧ t.follow (place ++ [name]) rest = .ok reached := by
  -- A name is neither of the two steps that do not lead down.
  obtain ⟨_, dot, dots, _⟩ := Route.isName_iff.mp known
  rw [follow]
  cases t.get place with
  | none => simp
  | some entry =>
    cases entry with
    | file bytes => simp
    | directory =>
      simp only [if_neg dot, if_neg dots, true_and]
      split
      · simp [Nat.not_le.mpr ‹_›]
      · simp [Nat.not_lt.mp ‹_›]

/-- Names lead down, one after the other. -/
theorem follow_names {place reached names : List String}
    (known : ∀ name ∈ names, Route.isName name) (found : t.follow place names = .ok reached) :
    reached = place ++ names := by
  -- No name is a step back, so the place only gets longer.
  induction names generalizing place with
  | nil =>
    cases found
    simp
  | cons name rest ih =>
    obtain ⟨_, _, later⟩ := (follow_cons_name (known name List.mem_cons_self)).mp found
    rw [ih (fun name held => known name (List.mem_cons_of_mem _ held)) later, List.append_assoc,
      List.singleton_append]

/-- On the way to a place there are directories. -/
theorem follow_dropLast {place reached names : List String} (some_ : names ≠ [])
    (known : ∀ name ∈ names, Route.isName name) (found : t.follow place names = .ok reached) :
    t.follow place names.dropLast = .ok (place ++ names.dropLast) ∧
      t.get (place ++ names.dropLast) = some .directory := by
  induction names generalizing place with
  | nil => exact absurd rfl some_
  | cons name rest ih =>
    have isName := known name List.mem_cons_self
    -- A step is only taken from a directory, so the last one is too.
    obtain ⟨here, fits, later⟩ := (follow_cons_name isName).mp found
    cases rest with
    | nil => exact ⟨by simp [follow], by simpa using here⟩
    | cons next rest =>
      obtain ⟨reaches, holds⟩ := ih (List.cons_ne_nil _ _)
        (fun name held => known name (List.mem_cons_of_mem _ held)) later
      rw [List.append_assoc, List.singleton_append] at reaches holds
      rw [List.dropLast_cons_cons]
      exact ⟨(follow_cons_name isName).mpr ⟨here, fits, reaches⟩, holds⟩

/-- The place of a path from the root is its names. -/
theorem locate_rooted (rooted : r.Rooted) {place : List String}
    (found : t.locate directory r.text = .ok place) : place = r.names := by
  -- From the root the steps are the names, or there are none and one stays.
  rw [locate, if_pos (Route.head?_text rooted)] at found
  split at found
  · cases found
  · by_cases named : r.names = []
    · rw [Route.steps_root rooted named] at found
      cases found
      exact named.symm
    · rw [Route.steps_text rooted named] at found
      simpa using follow_names rooted.names found

/-- A directory's path is no longer than those of the files in it. -/
theorem utf8ByteSize_parent (rooted : r.Rooted) :
    r.parent.text.utf8ByteSize ≤ r.text.utf8ByteSize := by
  have shorter (names : List String) : ("/".intercalate names.dropLast).utf8ByteSize ≤
      ("/".intercalate names).utf8ByteSize := by
    induction names with
    | nil => exact Nat.le_refl _
    | cons name rest ih =>
      cases rest with
      | nil => exact Nat.zero_le _
      | cons next rest =>
        rw [List.dropLast_cons_cons, String.intercalate_cons_cons]
        -- The last name goes with the slash before it, if another is left.
        cases left : (next :: rest).dropLast with
        | nil =>
          rw [String.intercalate_singleton, String.utf8ByteSize_append,
            String.utf8ByteSize_append]
          omega
        | cons other more =>
          rw [left] at ih
          rw [String.intercalate_cons_cons, String.utf8ByteSize_append,
            String.utf8ByteSize_append, String.utf8ByteSize_append, String.utf8ByteSize_append]
          omega
  rw [Route.text_of_rooted rooted, Route.text_of_rooted rooted.parent,
    String.utf8ByteSize_append, String.utf8ByteSize_append]
  exact Nat.add_le_add_left (shorter r.names) _

/-- A path that leads somewhere lies in a directory. -/
theorem isDirectory_parent (rooted : r.Rooted) (named : r.names ≠ []) {place : List String}
    (found : t.locate directory r.text = .ok place) :
    t.isDirectory directory r.parent.text := by
  have shorter := utf8ByteSize_parent rooted
  rw [locate, if_pos (Route.head?_text rooted), Route.steps_text rooted named] at found
  split at found
  · cases found
  · rename_i fits
    obtain ⟨reaches, holds⟩ := follow_dropLast named rooted.names found
    rw [List.nil_append] at reaches holds
    refine isDirectory_iff.mpr ⟨r.parent.names, ?_, holds⟩
    rw [locate, if_pos (Route.head?_text rooted.parent), if_neg (by omega)]
    -- At the top there are no names to follow, and the root is a directory.
    by_cases top : r.parent.names = []
    · rw [Route.steps_root rooted.parent top, top]
      rfl
    · rw [Route.steps_text rooted.parent top]
      exact reaches

end Rooted

end FileTree

end ModuleLift
