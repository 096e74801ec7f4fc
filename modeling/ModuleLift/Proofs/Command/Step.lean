import ModuleLift.Command.Run
import ModuleLift.Proofs.Files.FileTree
import ModuleLift.Proofs.Lift.Probe

/-! What converting one input does to the files: it writes one file, or none. -/

namespace ModuleLift.Command

section Attempts

/-- What comes of an input before anything is written: its text and conversion, or the complaint
about it. -/
def attempt (place : Workplace) (settings : Settings) (input : Route) (files : FileTree) :
    Except Breakdown (Except Text (Text × Conversion)) :=
  let path := input.text
  match files.find place.directory path with
  | .error .tooLong => .error (.access (.access { problem := .tooLong, path }))
  | .error _ => .ok (.error ("ERROR: Input file not found: " ++ path))
  | .ok _ =>
    match files.readText place.directory path with
    | .error (.access e) => .ok (.error ("ERROR: Failed to read " ++ path ++ ": " ++ e.message))
    | .error e => .error (.access e)
    | .ok source =>
      let isFile := files.isFile place.directory
      match convertWith place.reader settings.options isFile path source with
      | .error (.unreadable fault) =>
        if fault.isBreakdown then .error (.reading fault)
        else .ok (.error (conversionComplaint path (.unreadable fault)))
      | .error (.unlifted .noRange) => .error .unplaced
      | .error (.unwritten .noRange) => .error .unplaced
      | .error e => .ok (.error (conversionComplaint path e))
      | .ok c =>
        if c.specifiers.any (settings.stumbles isFile (Path.directory path)) then
          .error .extension
        else .ok (.ok (source, c))

variable {place : Workplace} {settings : Settings} {input : Route} {s : Session}

/-- Only the last part of converting an input touches files. -/
theorem convertInput_eq : convertInput place settings input s =
    match attempt place settings input s.files with
    | .error e => (s, .error e)
    | .ok (.error complaint) => (s.complain complaint, .ok 1)
    | .ok (.ok done) => finish place settings input done.1 done.2 s := by
  rw [convertInput, attempt]
  dsimp only
  -- Both sides ask the same questions in the same order: is the file there, is it text, does it
  -- convert, and does an extension that is missing come up.
  cases s.files.find place.directory input.text with
  | error lost => cases lost <;> rfl
  | ok entry =>
    cases s.files.readText place.directory input.text with
    | error e => cases e <;> rfl
    | ok source =>
      dsimp only
      cases convertWith place.reader settings.options (s.files.isFile place.directory)
          input.text source with
      | error e =>
        cases e with
        | unreadable fault =>
          dsimp only [reject]
          split <;> rfl
        | unlifted e => cases e <;> rfl
        | unwritten e => cases e <;> rfl
      | ok c =>
        dsimp only
        split <;> rfl

/-- A conversion is had where the input can be read and converted, and no extension is missing. -/
theorem attempt_eq_ok {files : FileTree} {source : Text} {c : Conversion} :
    attempt place settings input files = .ok (.ok (source, c)) ↔
      files.readText place.directory input.text = .ok source ∧
      convertWith place.reader settings.options (files.isFile place.directory) input.text source =
        .ok c ∧
      c.specifiers.any (settings.stumbles (files.isFile place.directory)
        (Path.directory input.text)) = false := by
  constructor
  · intro had
    rw [attempt] at had
    dsimp only at had
    split at had
    · cases had
    · cases had
    · split at had
      · cases had
      · cases had
      · rename_i read
        split at had
        · split at had <;> cases had
        · cases had
        · cases had
        · cases had
        · rename_i converted
          split at had
          · cases had
          · rename_i complete
            cases had
            exact ⟨read, converted, by simpa using complete⟩
  · rintro ⟨read, converted, complete⟩
    -- What can be read is there.
    obtain ⟨bytes, raw, held, _⟩ := FileTree.readText_eq_ok.mp read
    obtain ⟨_, at_, located, holds⟩ := FileTree.read_eq_ok.mp held
    rw [attempt]
    dsimp only
    rw [FileTree.find_eq_ok.mpr ⟨at_, located, holds⟩, read]
    dsimp only
    rw [converted]
    dsimp only
    rw [complete]
    rfl

/-- The paths asked for in converting an input. -/
def askedBy (place : Workplace) (settings : Settings) (files : FileTree) (input : Route) :
    List Text :=
  match files.readText place.directory input.text with
  | .error _ => []
  | .ok source =>
    asked place.reader settings.options (files.isFile place.directory) input.text source

/-- Extensions up to the first that is none, as texts. -/
theorem map_takeWhile (extensions : List (Option String)) :
    (extensions.takeWhile Option.isSome).map (fun ext => Text.ofString (ext.getD "[]")) =
      (extensions.takeWhile Option.isSome).reduceOption.map Text.ofString := by
  -- Up to the first that is none, all extensions are there.
  induction extensions with
  | nil => rfl
  | cons ext rest ih =>
    cases ext with
    | none => rfl
    | some ext => exact congrArg (Text.ofString ext :: ·) ih

/-- The files tried for a specifier start with those named by extensions that are some. -/
theorem candidates_options {specifier : Text}
    (takes : Specifier.takesExtension specifier)
    (short : (settings.extensions.takeWhile Option.isSome).length < settings.extensions.length) :
    ∃ rest, Specifier.candidates settings.options.extensions specifier =
      (settings.extensions.takeWhile Option.isSome).reduceOption.map
        (fun ext => specifier ++ Text.ofString ext) ++ rest := by
  have filled : settings.extensions.isEmpty = false := by
    cases none : settings.extensions with
    | nil => simp [none] at short
    | cons ext rest => rfl
  have given : settings.options.extensions =
      settings.extensions.map fun ext => Text.ofString (ext.getD "[]") := by
    simp [Settings.options, filled]
  -- The extensions split where the first of them is missing.
  have parts : settings.extensions.map (fun ext => Text.ofString (ext.getD "[]")) =
      (settings.extensions.takeWhile Option.isSome).reduceOption.map Text.ofString ++
        (settings.extensions.dropWhile Option.isSome).map
          fun ext => Text.ofString (ext.getD "[]") := by
    rw [← map_takeWhile, ← List.map_append, List.takeWhile_append_dropWhile]
  obtain ⟨dot, isLocal, slash, extension⟩ : specifier ≠ "." ∧ Specifier.isLocal specifier ∧
      Path.endsInSlash specifier = false ∧ Path.hasExtension specifier = false := by
    simpa [Specifier.takesExtension, and_assoc] using takes
  rw [Specifier.candidates, if_neg dot, if_neg (by simp [isLocal]), if_neg (by simp [slash]),
    if_neg (by simp [extension]), given, parts, List.map_append, List.map_map, List.append_assoc]
  exact ⟨_, rfl⟩

/-- Whether an extension is missing is known once the paths asked for are. -/
theorem stumbles_congr {isFile other : Text → Bool} {directory specifier : Text}
    (agree : ∀ path ∈
      (Specifier.resolve isFile directory settings.options.extensions specifier).probes,
      other path = isFile path) :
    settings.stumbles other directory specifier =
      settings.stumbles isFile directory specifier := by
  rw [Settings.stumbles, Settings.stumbles]
  by_cases short : (settings.extensions.takeWhile Option.isSome).length <
    settings.extensions.length
  · cases takes : Specifier.takesExtension specifier with
    | false => simp
    | true =>
      obtain ⟨rest, tries⟩ := candidates_options takes short
      -- Only files tried before the missing extension are asked about, and all of them are among
      -- the candidates.
      have same : ((settings.extensions.takeWhile Option.isSome).reduceOption.map
            fun ext => specifier ++ Text.ofString ext).any
              (fun candidate => other (Path.join directory candidate)) =
          ((settings.extensions.takeWhile Option.isSome).reduceOption.map
            fun ext => specifier ++ Text.ofString ext).any
              (fun candidate => isFile (Path.join directory candidate)) := by
        rw [Specifier.resolve_eq, tries] at agree
        exact Specifier.any_congr agree
      rw [List.any_map, List.any_map] at same
      congr 2
  · simp [short]

/-- An input fares alike in trees that have the same directories, hold the same in its place, and
tell the same about the paths it asks for. -/
theorem attempt_congr {files files' : FileTree} {at_ : List String} {entry : Entry}
    (located : files.locate place.directory input.text = .ok at_)
    (found : files.get at_ = some entry) (same : files.SameDirectories files')
    (held : files'.get at_ = files.get at_)
    (agree : ∀ path ∈ askedBy place settings files input,
      files'.isFile place.directory path = files.isFile place.directory path) :
    attempt place settings input files' = attempt place settings input files := by
  rw [askedBy] at agree
  -- Both find the same entry, so both read the same text.
  rw [attempt, attempt, FileTree.find_eq_ok.mpr ⟨at_, located, found⟩,
    FileTree.find_eq_ok.mpr ⟨at_, FileTree.locate_of_same same located, held.trans found⟩,
    FileTree.readText_congr same located held]
  cases read : files.readText place.directory input.text with
  | error e => cases e <;> rfl
  | ok source =>
    rw [read] at agree
    dsimp only at agree ⊢
    rw [convertWith_congr agree]
    cases converted : convertWith place.reader settings.options (files.isFile place.directory)
        input.text source with
    | error e =>
      cases e with
      | unreadable fault => rfl
      | unlifted e => cases e <;> rfl
      | unwritten e => cases e <;> rfl
    | ok c =>
      -- A conversion asks for every path that its specifiers are tried with.
      have stumbled : c.specifiers.any (settings.stumbles (files'.isFile place.directory)
            (Path.directory input.text)) =
          c.specifiers.any (settings.stumbles (files.isFile place.directory)
            (Path.directory input.text)) := by
        rw [Bool.eq_iff_iff, List.any_eq_true, List.any_eq_true]
        refine exists_congr fun specifier => and_congr_right fun listed => ?_
        rw [stumbles_congr fun path probed =>
          agree path (probes_subset_asked converted listed probed)]
      dsimp only
      rw [stumbled]

end Attempts

section Saving

variable {place : Workplace} {settings : Settings} {input route : Route} {files files' : FileTree}

/-- Whether a file can be written at a route. -/
structure Writable (place : Workplace) (files : FileTree) (route : Route) : Prop where
  clean : holdsNull route.text = false
  located : files.locate place.directory route.text = .ok route.names
  free : files.get route.names ≠ some .directory

/-- A path can be written among other files with the same directories. -/
theorem Writable.of_same (writable : Writable place files route)
    (same : files.SameDirectories files') : Writable place files' route where
  clean := writable.clean
  located := FileTree.locate_of_same same writable.located
  free := fun directory => writable.free ((same _).mpr directory)

/-- Writing along a route that names its place puts a file there. -/
theorem write_eq_ok_of_rooted (rooted : route.Rooted) {bytes : List UInt8} :
    files.write place.directory route.text bytes = .ok files' ↔
      Writable place files route ∧ files' = files.put route.names (.file bytes) := by
  -- Such a route is located at the names it consists of.
  rw [FileTree.write_eq_ok]
  constructor
  · rintro ⟨at_, reached, free, rfl⟩
    obtain ⟨clean, located⟩ := FileTree.reach_eq_ok.mp reached
    obtain rfl := FileTree.locate_rooted rooted located
    exact ⟨⟨clean, located, free⟩, rfl⟩
  · rintro ⟨writable, rfl⟩
    exact ⟨route.names, FileTree.reach_eq_ok.mpr ⟨writable.clean, writable.located⟩,
      writable.free, rfl⟩

/-- An output file lies beside its input. -/
theorem output_beside (plain : settings.target? = none) (rooted : input.Rooted) :
    (settings.output input).Rooted ∧ (settings.output input).parent = input.parent := by
  -- The input is replaced, or another extension takes the place of its own.
  rw [Settings.output]
  split
  · exact ⟨rooted, rfl⟩
  · rw [plain]
    exact ⟨rooted.withExtension, Route.parent_withExtension input ".mjs"⟩

/-- A conversion is saved where its file can be written and it has bytes. No directory is made on
the way. -/
theorem save_eq_ok (plain : settings.target? = none) (rooted : input.Rooted)
    (there : files.isDirectory place.directory input.parent.text) {c : Conversion} :
    save place settings input c files = .ok (files', none) ↔
      ∃ bytes, Text.encode c.code = .ok bytes ∧
        Writable place files (settings.output input) ∧
        files' = files.put (settings.output input).names (.file bytes) := by
  -- The directory of the output is that of the input, so it is there already.
  obtain ⟨rooted', parent⟩ := output_beside plain rooted
  have made : files.ensureDirectories place.directory (settings.output input).parent =
      .ok files := FileTree.ensureDirectories_eq (by rwa [parent])
  rw [save, made]
  show files.writeText place.directory (settings.output input).text c.code = .ok (files', none) ↔ _
  rw [FileTree.writeText_eq_ok]
  exact exists_congr fun bytes => and_congr_right fun _ => write_eq_ok_of_rooted rooted'

end Saving

section Outcomes

variable {place : Workplace} {settings : Settings} {input : Route} {files files' : FileTree}
  {s s' : Session} {code : Nat}

/-- The status of an input that was converted and saved. -/
def Settings.status (settings : Settings) (input : Route) (c : Conversion) : Nat :=
  if settings.strict && !(reports input.text c).isEmpty then 1 else 0

/-- Complaints change no file. -/
@[simp] theorem files_foldl_complain (lines : List Text) (s : Session) :
    (lines.foldl Session.complain s).files = s.files := by
  -- Each line goes to a stream.
  induction lines generalizing s with
  | nil => rfl
  | cons line rest ih => exact ih (s.complain line)

/-- Unless only a check is made, an input is done with once its conversion is saved. -/
theorem finish_eq_ok (saves : settings.check = false) {source : Text} {c : Conversion} :
    (∃ s', finish place settings input source c s = (s', .ok code) ∧ s'.files = files') ↔
      save place settings input c s.files = .ok (files', none) ∧
        code = settings.status input c := by
  -- The status is taken from the conversion, once saving has gone well.
  rw [finish, saves, if_neg Bool.false_ne_true, files_foldl_complain]
  cases save place settings input c s.files with
  | error e => simp
  | ok saved =>
    obtain ⟨files, fault⟩ := saved
    cases fault with
    | none =>
      constructor
      · rintro ⟨_, done, rfl⟩
        cases done
        exact ⟨rfl, rfl⟩
      · rintro ⟨same, rfl⟩
        cases same
        exact ⟨_, rfl, rfl⟩
    | some fault => simp

/-- What an input comes to if it does not end the run: the bytes that are written, if any, and a
status. -/
inductive Outcome (place : Workplace) (settings : Settings) (files : FileTree) (input : Route) :
    Option (List UInt8) → Nat → Prop where
  | refused {complaint : Text}
      (refusal : attempt place settings input files = .ok (.error complaint)) :
      Outcome place settings files input none 1
  | saved {source : Text} {c : Conversion} {bytes : List UInt8}
      (had : attempt place settings input files = .ok (.ok (source, c)))
      (encoded : Text.encode c.code = .ok bytes)
      (writable : Writable place files (settings.output input)) :
      Outcome place settings files input (some bytes) (settings.status input c)

/-- The tree after bytes, if any, were written to a file. -/
def deliver (files : FileTree) (output : Route) : Option (List UInt8) → FileTree
  | none => files
  | some bytes => files.put output.names (.file bytes)

/-- An input that can be read lies in a directory. -/
theorem isDirectory_of_attempt (rooted : input.Rooted) {source : Text} {c : Conversion}
    (had : attempt place settings input files = .ok (.ok (source, c))) :
    files.isDirectory place.directory input.parent.text := by
  -- The input is a file, so it is not the root, and locating it went through its directory.
  obtain ⟨read, _⟩ := attempt_eq_ok.mp had
  obtain ⟨bytes, raw, held, _⟩ := FileTree.readText_eq_ok.mp read
  obtain ⟨_, at_, located, holds⟩ := FileTree.read_eq_ok.mp held
  have named : input.names ≠ [] := by
    rw [← FileTree.locate_rooted rooted located]
    exact FileTree.ne_root (t := files) (by simp [holds])
  exact FileTree.isDirectory_parent rooted named located

/-- What converting an input does to the files, told by its outcome. -/
theorem convertInput_iff (saves : settings.check = false) (plain : settings.target? = none)
    (rooted : input.Rooted) :
    (∃ s', convertInput place settings input s = (s', .ok code) ∧ s'.files = files') ↔
      ∃ written, Outcome place settings s.files input written code ∧
        files' = deliver s.files (settings.output input) written := by
  rw [convertInput_eq]
  -- A breakdown has no outcome, a complaint is one that writes nothing, and a conversion is one if
  -- it can be encoded and written.
  cases tried : attempt place settings input s.files with
  | error e =>
    refine iff_of_false (by simp) ?_
    rintro ⟨_, outcome, _⟩
    cases outcome with
    | refused refusal => simp [tried] at refusal
    | saved had => simp [tried] at had
  | ok result =>
    cases result with
    | error complaint =>
      constructor
      · rintro ⟨s', done, rfl⟩
        cases done
        exact ⟨none, .refused tried, rfl⟩
      · rintro ⟨_, outcome, rfl⟩
        cases outcome with
        | refused refusal => exact ⟨_, rfl, rfl⟩
        | saved had => simp [tried] at had
    | ok done =>
      obtain ⟨source, c⟩ := done
      dsimp only
      rw [finish_eq_ok saves, save_eq_ok plain rooted (isDirectory_of_attempt rooted tried)]
      constructor
      · rintro ⟨⟨bytes, encoded, writable, rfl⟩, rfl⟩
        exact ⟨some bytes, .saved tried encoded writable, rfl⟩
      · rintro ⟨_, outcome, rfl⟩
        cases outcome with
        | refused refusal => simp [tried] at refusal
        | saved had encoded writable =>
          cases tried.symm.trans had
          exact ⟨⟨_, encoded, writable, rfl⟩, rfl⟩

/-- Writing a conversion leaves all directories as they are. -/
theorem Outcome.sameDirectories {written : Option (List UInt8)}
    (outcome : Outcome place settings files input written code) :
    files.SameDirectories (deliver files (settings.output input) written) := by
  -- A file is put where no directory is.
  cases outcome with
  | refused => exact FileTree.SameDirectories.refl files
  | saved _ _ writable => exact FileTree.sameDirectories_put writable.free _

end Outcomes

section Runs

variable {place : Workplace} {settings : Settings} {s s' : Session} {code status : Nat}

/-- A path as one from the root. -/
def Workplace.route (place : Workplace) (path : String) : Route :=
  (Route.ofText path).absolute place.directory

/-- The inputs that settings name, as paths from the root. -/
def Settings.routes (settings : Settings) (place : Workplace) : List Route :=
  settings.inputs.map place.route

/-- The working directory is given by names. -/
def Workplace.Named (place : Workplace) : Prop := ∀ name ∈ place.directory, Route.isName name

instance : Decidable place.Named :=
  inferInstanceAs (Decidable (∀ name ∈ place.directory, Route.isName name))

/-- A path leads from the root once it is put behind the directory of the workplace. -/
theorem rooted_route (named : place.Named) (path : String) : (place.route path).Rooted :=
  Route.rooted_absolute named path

/-- All inputs are given by routes from the root. -/
theorem rooted_of_mem_routes (named : place.Named) {input : Route}
    (listed : input ∈ settings.routes place) : input.Rooted := by
  -- Each route is made of one path.
  obtain ⟨path, _, rfl⟩ := List.mem_map.mp listed
  exact rooted_route named path

/-- Without an output file of their own, inputs are converted one after the other. -/
theorem convertCommand_eq_ok (plain : settings.target? = none) :
    convertCommand place settings s = (s', .ok code) ↔
      (∀ path ∈ settings.inputs, holdsNull path = false) ∧
        convertInputs place settings (settings.routes place) 0 s = (s', .ok code) := by
  rw [convertCommand, plain]
  cases found : settings.inputs.find? holdsNull with
  | none =>
    rw [List.find?_eq_none] at found
    simp only [Option.isSome_none, Bool.false_and, Bool.false_eq_true, if_false]
    exact (and_iff_right fun path listed => by simpa using found path listed).symm
  | some path =>
    -- A path with a null character ends the run before anything is converted.
    refine iff_of_false (by simp) fun both => ?_
    have clean := both.1 path (List.mem_of_find?_eq_some found)
    rw [List.find?_some found] at clean
    cases clean

/-- A run over inputs ends well where each step does. -/
theorem convertInputs_cons_eq_ok {input : Route} {rest : List Route} :
    convertInputs place settings (input :: rest) status s = (s', .ok code) ↔
      ∃ middle first, convertInput place settings input s = (middle, .ok first) ∧
        convertInputs place settings rest (max status first) middle = (s', .ok code) := by
  -- A fault of the first input would be the result of the run.
  rw [convertInputs]
  cases convertInput place settings input s with
  | mk middle result =>
    cases result with
    | error e => simp
    | ok first =>
      constructor
      · intro later
        exact ⟨middle, first, rfl, later⟩
      · rintro ⟨_, _, here, later⟩
        cases here
        exact later

end Runs

end ModuleLift.Command
