import Mathlib.Data.List.Nodup
import ModuleLift.Proofs.Command.Step

/-! Inputs that do not get in each other's way are converted as if each were alone, in whatever
order they come. -/

namespace ModuleLift.Command

section Results

variable {place : Workplace} {settings : Settings} {input : Route} {files files' : FileTree}
  {written : Option (List UInt8)} {code : Nat}

/-- What an input gives if it does not end the run: the bytes of its conversion, if there is one,
and its status. -/
def result (place : Workplace) (settings : Settings) (files : FileTree) (input : Route) :
    Option (List UInt8) × Nat :=
  match attempt place settings input files with
  | .ok (.ok done) => ((Text.encode done.2.code).toOption, settings.status input done.2)
  | _ => (none, 1)

/-- The result of an input is what it comes to. -/
theorem Outcome.result_eq (outcome : Outcome place settings files input written code) :
    result place settings files input = (written, code) := by
  -- Either the attempt is refused, or there are bytes to be saved.
  cases outcome with
  | refused refusal => rw [result, refusal]
  | saved had encoded =>
    rw [result, had]
    dsimp only
    rw [encoded]
    rfl

/-- An outcome does not change with files that the input does not ask for. -/
theorem Outcome.congr (outcome : Outcome place settings files input written code)
    {at_ : List String} {entry : Entry}
    (located : files.locate place.directory input.text = .ok at_)
    (found : files.get at_ = some entry) (same : files.SameDirectories files')
    (held : files'.get at_ = files.get at_)
    (agree : ∀ path ∈ askedBy place settings files input,
      files'.isFile place.directory path = files.isFile place.directory path) :
    Outcome place settings files' input written code := by
  -- An attempt depends on the file itself and on the answers to what it asks, saving on
  -- directories.
  have tried := attempt_congr located found same held agree
  cases outcome with
  | refused refusal => exact .refused (tried.trans refusal)
  | saved had encoded writable =>
    exact .saved (tried.trans had) encoded (writable.of_same same)

/-- A conversion is found where it was written. -/
theorem Outcome.get_deliver {bytes : List UInt8}
    (outcome : Outcome place settings files input (some bytes) code) (at_ : List String) :
    (deliver files (settings.output input) (some bytes)).get at_ =
      if at_ = (settings.output input).names then some (.file bytes) else files.get at_ := by
  -- Nothing but the output is written, and it is no directory.
  cases outcome with
  | saved _ _ writable => exact FileTree.get_put files (FileTree.ne_root writable.free) _ at_

end Results

section Merging

/-- Whether inputs can be converted without any of them noticing another. -/
structure Independent (place : Workplace) (settings : Settings) (files : FileTree)
    (inputs : List Route) : Prop where
  rooted : ∀ input ∈ inputs, input.Rooted
  found : ∀ input ∈ inputs, ∃ bytes, files.find place.directory input.text = .ok (.file bytes)
  outcome : ∀ input ∈ inputs, Outcome place settings files input
    (result place settings files input).1 (result place settings files input).2
  /-- No two conversions go to one file. -/
  outputs : ∀ one ∈ inputs, ∀ other ∈ inputs, one ≠ other →
    (settings.output one).names ≠ (settings.output other).names
  /-- No conversion takes another input's place. -/
  untouched : ∀ one ∈ inputs, ∀ other ∈ inputs, one ≠ other →
    (settings.output other).names ≠ one.names
  /-- No conversion makes a difference to the paths another input asks for. -/
  unasked : ∀ one ∈ inputs, ∀ other ∈ inputs, one ≠ other →
    ∀ path ∈ askedBy place settings files one,
      (deliver files (settings.output other) (result place settings files other).1).isFile
        place.directory path = files.isFile place.directory path

/-- A tree in which some inputs have been converted, and nothing else has changed. -/
structure Merged (place : Workplace) (settings : Settings) (files : FileTree)
    (done : List Route) (merged : FileTree) : Prop where
  same : files.SameDirectories merged
  written : ∀ input ∈ done, ∀ bytes, (result place settings files input).1 = some bytes →
    merged.get (settings.output input).names = some (.file bytes)
  kept : ∀ at_, (∀ input ∈ done, ∀ bytes, (result place settings files input).1 = some bytes →
    (settings.output input).names ≠ at_) → merged.get at_ = files.get at_

variable {place : Workplace} {settings : Settings} {files merged : FileTree}
  {inputs done : List Route}

/-- Nothing done leaves the files as they are. -/
theorem Merged.nil : Merged place settings files [] files where
  same := FileTree.SameDirectories.refl files
  written := by simp
  kept := fun _ _ => rfl

/-- What is found at a place was there before, or is the conversion of an input that is done. -/
theorem Merged.get_eq (m : Merged place settings files done merged) (at_ : List String) :
    merged.get at_ = files.get at_ ∨ ∃ input ∈ done, ∃ bytes,
      (result place settings files input).1 = some bytes ∧
        (settings.output input).names = at_ ∧ merged.get at_ = some (.file bytes) := by
  -- A place that some input is written to holds its bytes, any other was not touched.
  by_cases hit : ∃ input ∈ done, ∃ bytes, (result place settings files input).1 = some bytes ∧
      (settings.output input).names = at_
  · obtain ⟨input, listed, bytes, given, there⟩ := hit
    exact .inr ⟨input, listed, bytes, given, there, there ▸ m.written input listed bytes given⟩
  · exact .inl (m.kept at_ fun input listed bytes given there =>
      hit ⟨input, listed, bytes, given, there⟩)

/-- A path that no single conversion makes a difference to is a file or not, as before. -/
theorem Merged.isFile_eq (m : Merged place settings files done merged) {path : Text}
    (outcomes : ∀ input ∈ done, Outcome place settings files input
      (result place settings files input).1 (result place settings files input).2)
    (unasked : ∀ input ∈ done,
      (deliver files (settings.output input) (result place settings files input).1).isFile
        place.directory path = files.isFile place.directory path) :
    merged.isFile place.directory path = files.isFile place.directory path := by
  rw [Bool.eq_iff_iff]
  constructor
  · intro isFile
    obtain ⟨p, at_, bytes, named, located, held⟩ := FileTree.isFile_iff.mp isFile
    have located := FileTree.locate_of_same m.same.symm located
    rcases m.get_eq at_ with before | ⟨input, listed, bytes', given, there, _⟩
    · exact FileTree.isFile_iff.mpr ⟨p, at_, bytes, named, located, before ▸ held⟩
    · -- The file is the conversion of an input, and that alone would make the path one.
      have outcome := outcomes input listed
      rw [← unasked input listed]
      refine FileTree.isFile_iff.mpr ⟨p, at_, bytes', named,
        FileTree.locate_of_same outcome.sameDirectories located, ?_⟩
      rw [given] at outcome ⊢
      rw [outcome.get_deliver, if_pos there.symm]
  · intro isFile
    obtain ⟨p, at_, bytes, named, located, held⟩ := FileTree.isFile_iff.mp isFile
    have located := FileTree.locate_of_same m.same located
    rcases m.get_eq at_ with before | ⟨_, _, bytes', _, _, now⟩
    · exact FileTree.isFile_iff.mpr ⟨p, at_, bytes, named, located, before.trans held⟩
    · exact FileTree.isFile_iff.mpr ⟨p, at_, bytes', named, located, now⟩

/-- One more input is converted, to a file of its own. -/
theorem Merged.cons (m : Merged place settings files done merged) {input : Route}
    (outcome : Outcome place settings merged input
      (result place settings files input).1 (result place settings files input).2)
    (apart : ∀ other ∈ done, (settings.output other).names ≠ (settings.output input).names) :
    Merged place settings files (input :: done)
      (deliver merged (settings.output input) (result place settings files input).1) where
  same := m.same.trans outcome.sameDirectories
  written := by
    intro other listed bytes given
    rcases List.mem_cons.mp listed with rfl | before
    · -- The new input: its bytes have just been put there.
      rw [given] at outcome ⊢
      rw [outcome.get_deliver, if_pos rfl]
    · -- An earlier one: outputs are apart, so its bytes are not written over.
      have there := m.written other before bytes given
      cases now : (result place settings files input).1 with
      | none => exact there
      | some _ =>
        rw [now] at outcome
        rw [outcome.get_deliver, if_neg (apart other before)]
        exact there
  kept := by
    intro at_ clear
    have before := m.kept at_ fun other listed =>
      clear other (List.mem_cons_of_mem _ listed)
    cases now : (result place settings files input).1 with
    | none => exact before
    | some bytes =>
      rw [now] at outcome
      rw [outcome.get_deliver, if_neg (Ne.symm (clear input List.mem_cons_self bytes now))]
      exact before

/-- An input fares among others that are done as it does alone. -/
theorem Merged.outcome (m : Merged place settings files done merged)
    (independent : Independent place settings files inputs) {input : Route}
    (listed : input ∈ inputs) (within : ∀ other ∈ done, other ∈ inputs ∧ input ≠ other) :
    Outcome place settings merged input
      (result place settings files input).1 (result place settings files input).2 := by
  obtain ⟨bytes, found⟩ := independent.found input listed
  obtain ⟨at_, located, held⟩ := FileTree.find_eq_ok.mp found
  obtain rfl := FileTree.locate_rooted (independent.rooted input listed) located
  -- All that an input depends on is its own file and the files it asks for, and no other input
  -- writes to either.
  refine (independent.outcome input listed).congr located held m.same ?_ fun path asked => ?_
  · exact m.kept _ fun other before _ _ =>
      independent.untouched input listed other (within other before).1 (within other before).2
  · exact m.isFile_eq (fun other before => independent.outcome other (within other before).1)
      fun other before => independent.unasked input listed other (within other before).1
        (within other before).2 path asked

/-- A run over independent inputs converts each as if it were alone. -/
theorem convertInputs_merged (saves : settings.check = false) (plain : settings.target? = none)
    (independent : Independent place settings files inputs) {todo : List Route}
    (listed : ∀ input ∈ todo, input ∈ inputs) (distinct : todo.Nodup)
    (within : ∀ other ∈ done, other ∈ inputs ∧ other ∉ todo) {s : Session}
    (m : Merged place settings files done s.files) (status : Nat) :
    ∃ s', convertInputs place settings todo status s =
        (s', .ok ((todo.map fun input => (result place settings files input).2).foldl
          max status)) ∧
      Merged place settings files (todo.reverse ++ done) s'.files := by
  -- The inputs done so far are generalized, and `Merged` is what carries them along.
  induction todo generalizing done status s with
  | nil => exact ⟨s, rfl, m⟩
  | cons input rest ih =>
    obtain ⟨fresh, distinct⟩ := List.nodup_cons.mp distinct
    have here := listed input List.mem_cons_self
    have others : ∀ other ∈ done, other ∈ inputs ∧ input ≠ other := fun other before =>
      ⟨(within other before).1, fun same => (within other before).2 (same ▸ List.mem_cons_self)⟩
    -- The step: the input fares as it does alone, and its result is merged with the others.
    have outcome := m.outcome independent here others
    have next := m.cons outcome fun other before =>
      independent.outputs other (others other before).1 input here (others other before).2.symm
    obtain ⟨middle, converted, files_eq⟩ := (convertInput_iff saves plain
      (independent.rooted input here)).mpr ⟨_, outcome, rfl⟩
    rw [← files_eq] at next
    have later : ∀ other ∈ input :: done, other ∈ inputs ∧ other ∉ rest := by
      intro other before
      rcases List.mem_cons.mp before with rfl | before
      · exact ⟨here, fresh⟩
      · exact ⟨(within other before).1, fun inside =>
          (within other before).2 (List.mem_cons_of_mem _ inside)⟩
    obtain ⟨s', rest_ok, merged⟩ := ih
      (fun input inside => listed input (List.mem_cons_of_mem _ inside)) distinct later next
      (max status (result place settings files input).2)
    refine ⟨s', convertInputs_cons_eq_ok.mpr ⟨middle, _, converted, rest_ok⟩, ?_⟩
    rwa [List.reverse_cons, List.append_assoc]

end Merging

section Commands

variable {place : Workplace} {settings : Settings} {s : Session}

/-- The run with a single input. -/
def runAlone (place : Workplace) (settings : Settings) (s : Session) (path : String) :
    Session × Except Breakdown Nat :=
  convertCommand place { settings with inputs := [path] } s

/-- Which inputs are named does not matter once they are gone through. -/
theorem convertInputs_inputs (inputs : List String) (todo : List Route) (status : Nat) :
    convertInputs place { settings with inputs } todo status s =
      convertInputs place settings todo status s := by
  -- The list of names is read before, when the routes are made of it.
  induction todo generalizing status s with
  | nil => rfl
  | cons input rest ih =>
    have same : convertInput place { settings with inputs } input s =
      convertInput place settings input s := rfl
    rw [convertInputs, convertInputs, same]
    split
    · rfl
    · exact ih _

/-- A run with a single input tells what comes of it. -/
theorem outcome_of_runAlone (named : place.Named) (saves : settings.check = false)
    (plain : settings.target? = none) {path : String} {code : Nat}
    (ended : (runAlone place settings s path).2 = .ok code) :
    holdsNull path = false ∧
      Outcome place settings s.files (place.route path)
        (result place settings s.files (place.route path)).1
        (result place settings s.files (place.route path)).2 ∧
      (result place settings s.files (place.route path)).2 = code ∧
      (runAlone place settings s path).1.files =
        deliver s.files (settings.output (place.route path))
          (result place settings s.files (place.route path)).1 := by
  have whole : runAlone place settings s path = ((runAlone place settings s path).1, .ok code) :=
    Prod.ext rfl ended
  -- The run is one step, from which its outcome is read.
  obtain ⟨clean, converted⟩ :=
    (@convertCommand_eq_ok place { settings with inputs := [path] } s _ code plain).mp whole
  rw [convertInputs_inputs] at converted
  obtain ⟨middle, first, here, rest⟩ := convertInputs_cons_eq_ok.mp converted
  have ends : (middle, Except.ok (max 0 first)) =
      ((runAlone place settings s path).1, (.ok code : Except Breakdown Nat)) := rest
  obtain ⟨written, outcome, files_eq⟩ :=
    (convertInput_iff saves plain (rooted_route named path)).mp ⟨middle, here, rfl⟩
  have given := outcome.result_eq
  refine ⟨clean path List.mem_cons_self, ?_, ?_, ?_⟩
  · rw [given]
    exact outcome
  · rw [given]
    simpa using congrArg Prod.snd ends
  · rw [given, ← files_eq]
    exact congrArg (fun r => r.1.files) ends.symm

/-- What keeps the inputs of a run apart: each is a file, ends alone with a status, and goes to an
output file of its own that is no input. Unless inputs are replaced, no output file is asked for by
another input. -/
structure Apart (place : Workplace) (settings : Settings) (s : Session) : Prop where
  found : ∀ path ∈ settings.inputs, s.files.isFile place.directory (place.route path).text
  outputs : ((settings.routes place).map settings.output).Nodup
  untouched : settings.inPlace = false →
    ∀ input ∈ settings.routes place, settings.output input ∉ settings.routes place
  unasked : settings.inPlace = false → ∀ one ∈ settings.inputs, ∀ other ∈ settings.inputs,
    one ≠ other → ∀ probe ∈ askedBy place settings s.files (place.route one),
      (runAlone place settings s other).1.files.isFile place.directory probe =
        s.files.isFile place.directory probe

/-- Inputs that are kept apart are independent. -/
theorem Apart.independent (apart : Apart place settings s) (named : place.Named)
    (saves : settings.check = false) (plain : settings.target? = none)
    (ends : ∀ path ∈ settings.inputs, ∃ code, (runAlone place settings s path).2 = .ok code) :
    Independent place settings s.files (settings.routes place) where
  rooted input listed := rooted_of_mem_routes named listed
  found input listed := by
    obtain ⟨path, inside, rfl⟩ := List.mem_map.mp listed
    exact FileTree.isFile_ofString.mp (apart.found path inside)
  outcome input listed := by
    obtain ⟨path, inside, rfl⟩ := List.mem_map.mp listed
    obtain ⟨code, ended⟩ := ends path inside
    exact (outcome_of_runAlone named saves plain ended).2.1
  outputs one listed other listed' differ same := by
    have rooted := (output_beside plain (rooted_of_mem_routes named listed)).1
    have rooted' := (output_beside plain (rooted_of_mem_routes named listed')).1
    exact differ (List.inj_on_of_nodup_map apart.outputs listed listed'
      (rooted.eq_of_names rooted' same))
  untouched one listed other listed' differ same := by
    have rooted := rooted_of_mem_routes named listed
    have rooted' := (output_beside plain (rooted_of_mem_routes named listed')).1
    have taken := rooted'.eq_of_names rooted same
    cases replaces : settings.inPlace with
    | true =>
      rw [Settings.output, if_pos replaces] at taken
      exact differ taken.symm
    | false => exact apart.untouched replaces other listed' (taken ▸ listed)
  unasked one listed other listed' differ probe asked := by
    obtain ⟨path, inside, rfl⟩ := List.mem_map.mp listed
    obtain ⟨path', inside', rfl⟩ := List.mem_map.mp listed'
    cases replaces : settings.inPlace with
    | true =>
      -- A file takes the place of a file.
      obtain ⟨bytes, found⟩ := FileTree.isFile_ofString.mp (apart.found path' inside')
      obtain ⟨at_, located, held⟩ := FileTree.find_eq_ok.mp found
      obtain rfl := FileTree.locate_rooted (rooted_route named path') located
      rw [Settings.output, if_pos replaces]
      cases (result place settings s.files (place.route path')).1 with
      | none => rfl
      | some _ => exact FileTree.isFile_put held probe
    | false =>
      obtain ⟨code, ended⟩ := ends path' inside'
      rw [← (outcome_of_runAlone named saves plain ended).2.2.2]
      exact apart.unasked replaces path inside path' inside' (fun same => differ (same ▸ rfl))
        probe asked

/-- Inputs that are kept apart are converted as if each were alone, in whatever order they come: the
status is the largest of theirs, and at every place there is what the run that changes it leaves
there. -/
theorem convertCommand_apart (named : place.Named) (saves : settings.check = false)
    (plain : settings.target? = none) (apart : Apart place settings s) {codes : String → Nat}
    (ends : ∀ path ∈ settings.inputs, (runAlone place settings s path).2 = .ok (codes path))
    {inputs : List String} (perm : inputs.Perm settings.inputs) :
    ∃ s', convertCommand place { settings with inputs } s =
        (s', .ok ((settings.inputs.map codes).foldl max 0)) ∧
      ∀ at_,
        (∀ path ∈ settings.inputs,
          (runAlone place settings s path).1.files.get at_ ≠ s.files.get at_ →
            s'.files.get at_ = (runAlone place settings s path).1.files.get at_) ∧
        ((∀ path ∈ settings.inputs,
          (runAlone place settings s path).1.files.get at_ = s.files.get at_) →
            s'.files.get at_ = s.files.get at_) := by
  have independent := apart.independent named saves plain fun path listed =>
    ⟨codes path, ends path listed⟩
  have alone (path : String) (listed : path ∈ settings.inputs) :=
    outcome_of_runAlone named saves plain (ends path listed)
  have routes : (inputs.map place.route).Perm (settings.routes place) := perm.map _
  obtain ⟨s', converted, merged⟩ := convertInputs_merged saves plain independent
    (fun input listed => routes.mem_iff.mp listed)
    (routes.nodup_iff.mpr (List.Nodup.of_map _ apart.outputs)) (by simp) Merged.nil 0
  have sole {path : String} (listed : path ∈ settings.inputs) {bytes : List UInt8}
      (given : (result place settings s.files (place.route path)).1 = some bytes)
      (at_ : List String) :
      (runAlone place settings s path).1.files.get at_ =
        if at_ = (settings.output (place.route path)).names then some (.file bytes)
        else s.files.get at_ := by
    obtain ⟨_, outcome, _, files_eq⟩ := alone path listed
    rw [given] at outcome files_eq
    rw [files_eq, outcome.get_deliver]
  refine ⟨s', ?_, fun at_ => ⟨fun path listed changed => ?_, fun unchanged => ?_⟩⟩
  · refine (@convertCommand_eq_ok place { settings with inputs } s s' _ plain).mpr
      ⟨fun path listed => (alone path (perm.mem_iff.mp listed)).1, ?_⟩
    rw [convertInputs_inputs]
    refine converted.trans ?_
    have statuses : (inputs.map place.route).map
        (fun input => (result place settings s.files input).2) = inputs.map codes := by
      rw [List.map_map]
      exact List.map_congr_left fun path listed => (alone path (perm.mem_iff.mp listed)).2.2.1
    rw [statuses, (perm.map codes).foldl_eq' (fun _ _ _ _ _ => by omega)]
  · -- A run alone changes its output file, and that only if the input is converted.
    cases given : (result place settings s.files (place.route path)).1 with
    | none =>
      rw [(alone path listed).2.2.2, given] at changed
      exact absurd rfl changed
    | some bytes =>
      rw [sole listed given] at changed ⊢
      split
      · rename_i there
        rw [there]
        exact merged.written _ (by simpa using ⟨path, perm.mem_iff.mpr listed, rfl⟩) bytes given
      · rename_i elsewhere
        rw [if_neg elsewhere] at changed
        exact absurd rfl changed
  · rcases merged.get_eq at_ with before | ⟨input, done, bytes, given, there, now⟩
    · exact before
    · obtain ⟨path, listed, rfl⟩ : ∃ path ∈ inputs, place.route path = input := by
        simpa using done
      have same := unchanged path (perm.mem_iff.mp listed)
      rw [sole (perm.mem_iff.mp listed) given, if_pos there.symm] at same
      exact now.trans same

/-- A file that is no program is reported, and the other one is converted. -/
theorem convertCommand_apart_refused :
    let place : Workplace := { directory := ["home"], reader := Reader.strict }
    let files : FileTree := { entries := [
      (["home"], .directory),
      (["home", "a.js"], .ofString "const b = require('./b');\n"),
      (["home", "b.js"], .ofString "let let;\n")] }
    let settings : Settings := { inputs := ["a.js", "b.js"] }
    ∃ s', convertCommand place { settings with inputs := ["b.js", "a.js"] } { files } =
        (s', .ok 1) ∧
      s'.files.get ["home", "a.mjs"] = some (.ofString "import b from './b.js';\n") ∧
      s'.files.get ["home", "b.mjs"] = none := by
  intro place files settings
  have apart : Apart place settings { files } :=
    ⟨by decide +kernel, by decide +kernel, by decide +kernel, by decide +kernel⟩
  -- Alone, the first input ends with no complaint and the second one does not parse.
  have ends : ∀ path ∈ settings.inputs, (runAlone place settings { files } path).2 =
      .ok (if path = "b.js" then 1 else 0) := by decide +kernel
  have perm : ["b.js", "a.js"].Perm settings.inputs := by decide
  obtain ⟨s', converted, leaves⟩ := convertCommand_apart (by decide) rfl rfl apart ends perm
  have written : (runAlone place settings { files } "a.js").1.files.get ["home", "a.mjs"] =
      some (.ofString "import b from './b.js';\n") := by decide +kernel
  refine ⟨s', converted, ?_, ?_⟩
  · rw [(leaves ["home", "a.mjs"]).1 "a.js" (by decide) (by decide +kernel), written]
  · exact (leaves ["home", "b.mjs"]).2 (by decide +kernel)

/-- An output file that another input asks for lets the order of inputs show. -/
theorem convertCommand_asked :
    let place : Workplace := { directory := [], reader := Reader.strict }
    let files : FileTree := { entries := [
      (["a.js"], .ofString "const b = require('./b');\n"), (["b.js"], .ofString "\n")] }
    let settings : Settings := { inputs := ["b.js", "a.js"], extensions := [some ".mjs"] }
    let after (inputs : List String) : Option Entry :=
      (convertCommand place { settings with inputs } { files }).1.files.get ["a.mjs"]
    after ["a.js"] = some (.ofString "import b from './b';\n") ∧
      after ["a.js", "b.js"] = some (.ofString "import b from './b';\n") ∧
      after ["b.js", "a.js"] = some (.ofString "import b from './b.mjs';\n") := by
  decide +kernel

end Commands

end ModuleLift.Command
