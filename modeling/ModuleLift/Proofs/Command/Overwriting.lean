import Mathlib.Data.List.Nodup
import ModuleLift.Proofs.Command.Isolation

/-! When a run keeps its inputs: conversions go to files beside the inputs, and nothing keeps such a
file from being an input or the output file of another one. -/

namespace ModuleLift.Command

section Runs

variable {place : Workplace} {settings : Settings} {s s' : Session} {status code : Nat}

/-- A run over two lists of inputs is a run over the first and then over the second. -/
theorem convertInputs_append_eq_ok {before after : List Route} :
    convertInputs place settings (before ++ after) status s = (s', .ok code) ↔
      ∃ middle reached, convertInputs place settings before status s = (middle, .ok reached) ∧
        convertInputs place settings after reached middle = (s', .ok code) := by
  -- The induction is on the first list; the second run starts with the status that was reached.
  induction before generalizing status s with
  | nil =>
    constructor
    · intro later
      exact ⟨s, status, rfl, later⟩
    · rintro ⟨middle, reached, here, later⟩
      cases here
      exact later
  | cons input rest ih =>
    rw [List.cons_append, convertInputs_cons_eq_ok]
    constructor
    · rintro ⟨next, first, here, later⟩
      obtain ⟨middle, reached, upto, later⟩ := ih.mp later
      exact ⟨middle, reached, convertInputs_cons_eq_ok.mpr ⟨next, first, here, upto⟩, later⟩
    · rintro ⟨middle, reached, upto, later⟩
      obtain ⟨next, first, here, upto⟩ := convertInputs_cons_eq_ok.mp upto
      exact ⟨next, first, here, ih.mpr ⟨middle, reached, upto, later⟩⟩

/-- The status of a run does not fall. -/
theorem le_of_convertInputs {inputs : List Route}
    (done : convertInputs place settings inputs status s = (s', .ok code)) : status ≤ code := by
  -- Each input leaves the greater of the status so far and its own.
  induction inputs generalizing status s with
  | nil =>
    cases done
    exact Nat.le_refl _
  | cons input rest ih =>
    obtain ⟨_, first, _, later⟩ := convertInputs_cons_eq_ok.mp done
    have := ih later
    omega

/-- A run that ends well converts every input. -/
theorem convertInputs_cons_eq_zero {input : Route} {rest : List Route}
    (done : convertInputs place settings (input :: rest) 0 s = (s', .ok 0)) :
    ∃ middle, convertInput place settings input s = (middle, .ok 0) ∧
      convertInputs place settings rest 0 middle = (s', .ok 0) := by
  -- A status that has risen above zero would not come down again.
  obtain ⟨middle, first, here, later⟩ := convertInputs_cons_eq_ok.mp done
  have least := le_of_convertInputs later
  obtain rfl : first = 0 := by omega
  exact ⟨middle, here, later⟩

end Runs

section Conversions

variable {place : Workplace} {settings : Settings} {s s' : Session}

/-- The text that an input has to begin with converts to these bytes, once the inputs before it have
been converted. -/
def Gives (place : Workplace) (settings : Settings) (s : Session) (before : List Route)
    (input : Route) (bytes : List UInt8) : Prop :=
  ∃ source c, s.files.readText place.directory input.text = .ok source ∧
    convertWith place.reader settings.options
      ((convertInputs place settings before 0 s).1.files.isFile place.directory)
      input.text source = .ok c ∧
    Text.encode c.code = .ok bytes

/-- An input gives one sequence of bytes. -/
theorem Gives.unique {before : List Route} {input : Route} {bytes bytes' : List UInt8}
    (gives : Gives place settings s before input bytes)
    (gives' : Gives place settings s before input bytes') : bytes' = bytes := by
  -- Reading, converting and encoding have one result each.
  obtain ⟨source, c, read, converted, encoded⟩ := gives
  obtain ⟨source', c', read', converted', encoded'⟩ := gives'
  obtain rfl := Except.ok.inj (read.symm.trans read')
  obtain rfl := Except.ok.inj (converted.symm.trans converted')
  exact Except.ok.inj (encoded'.symm.trans encoded)

/-- No conversion changes an input, and no two that differ go to one file. -/
def Harmless (place : Workplace) (settings : Settings) (s : Session) : Prop :=
  ∀ before input after bytes, settings.routes place = before ++ input :: after →
    Gives place settings s before input bytes →
      (settings.output input ∈ settings.routes place →
        s.files.get (settings.output input).names = some (.file bytes)) ∧
      ∀ before' input' after' bytes', settings.routes place = before' ++ input' :: after' →
        Gives place settings s before' input' bytes' →
        settings.output input' = settings.output input → bytes' = bytes

/-- A tree in which inputs have been converted, with all inputs and all conversions in place. -/
structure Intact (place : Workplace) (settings : Settings) (s : Session) (done : List Route)
    (files : FileTree) : Prop where
  same : s.files.SameDirectories files
  kept : ∀ input ∈ settings.routes place, files.get input.names = s.files.get input.names
  held : ∀ before input after, done = before ++ input :: after →
    ∃ bytes, Gives place settings s before input bytes ∧
      files.get (settings.output input).names = some (.file bytes)

/-- A list with one more element is split before that element or earlier. -/
theorem split_concat {α : Type} {l before after : List α} {x y : α}
    (whole : l ++ [x] = before ++ y :: after) :
    (before = l ∧ y = x) ∨ ∃ left, l = before ++ y :: left := by
  -- What comes after is empty or ends with the new element.
  rcases List.eq_nil_or_concat' after with rfl | ⟨left, last, rfl⟩
  · obtain ⟨rfl, same⟩ := List.append_inj' whole rfl
    exact .inl ⟨rfl, (List.cons.inj same).1.symm⟩
  · rw [← List.cons_append, ← List.append_assoc] at whole
    exact .inr ⟨left, (List.append_inj' whole rfl).1⟩

/-- An input that is converted while all is intact is converted from the text it has to begin
with. -/
theorem Intact.gives {done : List Route} {middle : Session}
    (intact : Intact place settings s done middle.files)
    (reached : convertInputs place settings done 0 s = (middle, .ok 0)) {input : Route}
    (rooted : input.Rooted) (listed : input ∈ settings.routes place) {source : Text}
    {c : Conversion} {bytes : List UInt8}
    (had : attempt place settings input middle.files = .ok (.ok (source, c)))
    (encoded : Text.encode c.code = .ok bytes) : Gives place settings s done input bytes := by
  obtain ⟨read, converted, _⟩ := attempt_eq_ok.mp had
  obtain ⟨_, _, held, _⟩ := FileTree.readText_eq_ok.mp read
  obtain ⟨_, at_, located, _⟩ := FileTree.read_eq_ok.mp held
  obtain rfl := FileTree.locate_rooted rooted located
  refine ⟨source, c, ?_, ?_, encoded⟩
  · -- No input is touched while all is intact, so its text is the one it had to begin with.
    rw [FileTree.readText_congr intact.same.symm located (intact.kept input listed).symm]
    exact read
  · rw [reached]
    exact converted

/-- One more input is converted, without harm. -/
theorem Intact.concat (named : place.Named) (plain : settings.target? = none)
    (harmless : Harmless place settings s) {done after : List Route} {middle : Session}
    (intact : Intact place settings s done middle.files) {input : Route}
    (split : settings.routes place = done ++ input :: after) {bytes : List UInt8}
    (gives : Gives place settings s done input bytes)
    (writable : Writable place middle.files (settings.output input)) :
    Intact place settings s (done ++ [input])
      (middle.files.put (settings.output input).names (.file bytes)) where
  same := intact.same.trans (FileTree.sameDirectories_put writable.free bytes)
  kept := by
    intro other listed
    have here : input ∈ settings.routes place := by simp [split]
    rw [FileTree.get_put _ (FileTree.ne_root writable.free)]
    -- Where the output is an input, a harmless run writes back what that input holds.
    split
    · rename_i taken
      have rooted := (output_beside plain (rooted_of_mem_routes named here)).1
      have same : settings.output input = other :=
        rooted.eq_of_names (rooted_of_mem_routes named listed) taken.symm
      rw [← same, (harmless done input after bytes split gives).1 (same ▸ listed)]
    · exact intact.kept other listed
  held := by
    intro before earlier after' whole
    rw [FileTree.get_put _ (FileTree.ne_root writable.free)]
    -- The last of the inputs done is the new one; the others come before it.
    rcases split_concat whole with ⟨rfl, rfl⟩ | ⟨left, rfl⟩
    · exact ⟨bytes, gives, if_pos rfl⟩
    · obtain ⟨bytes', gives', there⟩ := intact.held before earlier left rfl
      refine ⟨bytes', gives', ?_⟩
      -- Where both have the same output, a harmless run writes the same bytes to it twice.
      split
      · rename_i taken
        have split' : settings.routes place = before ++ earlier :: (left ++ input :: after) := by
          simp [split]
        have rooted := (output_beside plain (rooted_of_mem_routes named
          (by simp [split'] : earlier ∈ settings.routes place))).1
        have rooted' := (output_beside plain (rooted_of_mem_routes named
          (by simp [split] : input ∈ settings.routes place))).1
        rw [(harmless _ input after bytes split gives).2 before earlier _ bytes' split' gives'
          (rooted.eq_of_names rooted' taken)]
      · exact there

/-- A harmless run leaves all intact. -/
theorem intact_of_convertInputs (named : place.Named) (saves : settings.check = false)
    (plain : settings.target? = none) (harmless : Harmless place settings s)
    {done todo : List Route} (split : settings.routes place = done ++ todo) {middle : Session}
    (reached : convertInputs place settings done 0 s = (middle, .ok 0))
    (intact : Intact place settings s done middle.files)
    (ended : convertInputs place settings todo 0 middle = (s', .ok 0)) :
    Intact place settings s (settings.routes place) s'.files := by
  induction todo generalizing done middle with
  | nil =>
    cases ended
    rw [split, List.append_nil]
    exact intact
  | cons input rest ih =>
    obtain ⟨next, here, later⟩ := convertInputs_cons_eq_zero ended
    have listed : input ∈ settings.routes place := by simp [split]
    have rooted := rooted_of_mem_routes named listed
    obtain ⟨written, outcome, files_eq⟩ :=
      (convertInput_iff saves plain rooted).mp ⟨next, here, rfl⟩
    -- A run that ends well has no refused input: one of those ends with status one.
    generalize zero : 0 = status at outcome
    cases outcome with
    | refused => cases zero
    | saved had encoded writable =>
      have next_split : settings.routes place = (done ++ [input]) ++ rest := by simp [split]
      refine ih next_split ?_ ?_ later
      · exact convertInputs_append_eq_ok.mpr ⟨middle, 0, reached,
          convertInputs_cons_eq_ok.mpr ⟨next, 0, here, rfl⟩⟩
      · rw [files_eq]
        exact intact.concat named plain harmless split
          (intact.gives reached rooted listed had encoded) writable

/-- Output files that differ from each other and from all inputs do no harm. -/
theorem harmless_of_apart (outputs : ((settings.routes place).map settings.output).Nodup)
    (outside : ∀ input ∈ settings.routes place, settings.output input ∉ settings.routes place) :
    Harmless place settings s := by
  intro before input after bytes split gives
  have listed : input ∈ settings.routes place := by simp [split]
  refine ⟨fun taken => absurd taken (outside input listed), ?_⟩
  intro before' input' after' bytes' split' gives' same
  obtain rfl : input' = input := List.inj_on_of_nodup_map outputs (by simp [split']) listed same
  -- An input that occurs once is preceded by the same inputs.
  have once := List.Nodup.of_map _ outputs
  rw [split, List.nodup_append] at once
  have fresh : input' ∉ before := fun inside => once.2.2 input' inside input' (by simp) rfl
  obtain ⟨rfl, _⟩ := (List.append_cons_inj_of_notMem fresh (List.nodup_cons.mp once.2.1).1).mp
    (split.symm.trans split')
  exact gives.unique gives'

/-- A run that ends well keeps every input and leaves every conversion in the file it goes to just
if it is harmless, and so if output files differ from each other and from all inputs. -/
theorem inputs_kept_iff (named : place.Named) (saves : settings.check = false)
    (beside : settings.inPlace = false) (plain : settings.target? = none)
    (done : convertCommand place settings s = (s', .ok 0)) :
    ((∀ before input after, settings.routes place = before ++ input :: after →
        s'.files.get input.names = s.files.get input.names ∧
        ∃ bytes, Gives place settings s before input bytes ∧
          s'.files.get (input.withExtension ".mjs").names = some (.file bytes)) ↔
      Harmless place settings s) ∧
    (((settings.routes place).map fun input => input.withExtension ".mjs").Nodup →
      (∀ input ∈ settings.routes place,
        input.withExtension ".mjs" ∉ settings.routes place) →
      Harmless place settings s) := by
  have output : settings.output = fun input => input.withExtension ".mjs" := by
    funext input
    rw [Settings.output, beside, plain]
    rfl
  refine ⟨⟨fun kept => ?_, fun harmless => ?_⟩, fun outputs outside => ?_⟩
  · -- A file holds one thing at the end, so two conversions that go to it agree, and one that goes
    -- to an input is what that input holds.
    intro before input after bytes split gives
    have holds {before input after} (split : settings.routes place = before ++ input :: after)
        {bytes} (gives : Gives place settings s before input bytes) :
        s'.files.get (settings.output input).names = some (.file bytes) := by
      obtain ⟨_, bytes', gives', there⟩ := kept before input after split
      rw [output, there, gives.unique gives']
    refine ⟨fun taken => ?_, fun before' input' after' bytes' split' gives' same => ?_⟩
    · obtain ⟨before', after', split'⟩ := List.append_of_mem taken
      rw [← (kept before' _ after' split').1]
      exact holds split gives
    · have both := holds split' gives'
      rw [same, holds split gives] at both
      simpa using both.symm
  · -- Conversely a harmless run keeps all intact from its first input to its last.
    obtain ⟨_, converted⟩ := (convertCommand_eq_ok plain).mp done
    have start : Intact place settings s [] s.files :=
      ⟨FileTree.SameDirectories.refl _, fun _ _ => rfl, by simp⟩
    have intact := intact_of_convertInputs named saves plain harmless rfl rfl start converted
    intro before input after split
    refine ⟨intact.kept input (by simp [split]), ?_⟩
    obtain ⟨bytes, gives, there⟩ := intact.held before input after split
    exact ⟨bytes, gives, by rwa [output] at there⟩
  · rw [← output] at outputs
    exact harmless_of_apart outputs (by rwa [output])

/-- Two inputs with names of their own are both kept. -/
theorem inputs_kept_apart :
    let place : Workplace := { directory := [], reader := Reader.strict }
    let files : FileTree := { entries := [
      (["a.js"], .ofString "const b = require('b');\n"), (["b.c.js"], .ofString "\n")] }
    let settings : Settings := { inputs := ["a.js", "b.c.js"] }
    ∃ s', convertCommand place settings { files } = (s', .ok 0) ∧
      Harmless place settings { files } ∧
      ∀ input ∈ settings.routes place, s'.files.get input.names = files.get input.names := by
  intro place files settings
  -- The whole run is computed once, and what is asked of it is decided.
  have done : convertCommand place settings { files } =
      ((convertCommand place settings { files }).1, .ok 0) := Prod.ext rfl (by decide +kernel)
  have kept := inputs_kept_iff (by decide) rfl rfl rfl done
  have harmless := kept.2 (by decide +kernel) (by decide +kernel)
  refine ⟨_, done, harmless, fun input listed => ?_⟩
  obtain ⟨before, after, split⟩ := List.append_of_mem listed
  exact (kept.1.mpr harmless before input after split).1

/-- An input whose name is that of its own output file is overwritten. -/
theorem input_overwritten :
    let place : Workplace := { directory := [], reader := Reader.strict }
    let files : FileTree :=
      { entries := [(["a.mjs"], .ofString "const b = require('b');\n")] }
    let ended := convertCommand place { inputs := ["a.mjs"] } { files }
    ended.2 = .ok 0 ∧ ended.1.files.get ["a.mjs"] = some (.ofString "import b from 'b';\n") ∧
      ended.1.files.get ["a.mjs"] ≠ files.get ["a.mjs"] := by
  decide +kernel

end Conversions

end ModuleLift.Command
