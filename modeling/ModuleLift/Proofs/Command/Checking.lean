import Mathlib.Data.List.Basic
import ModuleLift.Proofs.Command.Step

/-! What a check tells about replacing the inputs: it compares texts whose line breaks are unified,
while replacing an input writes its bytes anew. -/

namespace ModuleLift.Command

section Inputs

variable {place : Workplace} {settings : Settings} {input : Route} {files files' : FileTree}
  {s : Session} {source : Text} {c : Conversion} {bytes : List UInt8}

/-- A text is unchanged if its conversion is the text itself. -/
theorem changed_eq_false_iff {reader : Reader} {options : Options} {isFile : Text → Bool}
    {path : Text} (converted : convertWith reader options isFile path source = .ok c) :
    c.changed = false ↔ c.code = source := by
  -- What is told of a conversion is set from the text that was written.
  obtain ⟨unit, lifted, emitted, _, _, written, code, changed, _⟩ := of_convertWith converted
  obtain ⟨text, _, given⟩ := bind_eq_ok.mp written
  obtain rfl := Except.ok.inj given
  rw [code, changed]
  simp

/-- An input can be converted, to a conversion that has bytes. -/
structure Converts (place : Workplace) (settings : Settings) (files : FileTree) (input : Route)
    (source : Text) (c : Conversion) (bytes : List UInt8) : Prop where
  had : attempt place settings input files = .ok (.ok (source, c))
  encoded : Text.encode c.code = .ok bytes

/-- Whether an input can be converted, to a conversion that has bytes. -/
def isConvertible (place : Workplace) (settings : Settings) (files : FileTree) (input : Route) :
    Bool :=
  match attempt place settings input files with
  | .ok (.ok done) => (Text.encode done.2.code).isOk
  | _ => false

/-- An input that can be converted has a text, a conversion and bytes for it. -/
theorem exists_converts (convertible : isConvertible place settings files input) :
    ∃ source c bytes, Converts place settings files input source c bytes := by
  -- Being convertible is asked of the same attempt, and of the same bytes.
  rw [isConvertible] at convertible
  split at convertible
  · rename_i done had
    cases encoded : Text.encode done.2.code with
    | error fault =>
      rw [encoded] at convertible
      cases convertible
    | ok bytes => exact ⟨done.1, done.2, bytes, had, encoded⟩
  · cases convertible

/-- An input is converted to one sequence of bytes. -/
theorem Converts.unique (converts : Converts place settings files input source c bytes)
    {source' : Text} {c' : Conversion} {bytes' : List UInt8}
    (converts' : Converts place settings files input source' c' bytes') : bytes = bytes' := by
  -- Both conversions come from the same attempt.
  cases converts.had.symm.trans converts'.had
  exact Except.ok.inj (converts.encoded.symm.trans converts'.encoded)

/-- An input that can be converted is a file, and its text is that of its bytes. -/
theorem Converts.file (converts : Converts place settings files input source c bytes)
    (rooted : input.Rooted) : ∃ old raw, holdsNull input.text = false ∧
      files.locate place.directory input.text = .ok input.names ∧
      files.get input.names = some (.file old) ∧ Text.decode old = .ok raw ∧
      Text.unifyBreaks raw = source := by
  -- The attempt begins by reading, and reading finds a file and decodes it.
  obtain ⟨read, _⟩ := attempt_eq_ok.mp converts.had
  obtain ⟨old, raw, held, decoded, unified⟩ := FileTree.readText_eq_ok.mp read
  obtain ⟨clean, at_, located, there⟩ := FileTree.read_eq_ok.mp held
  obtain rfl := FileTree.locate_rooted rooted located
  exact ⟨old, raw, clean, located, there, decoded, unified⟩

/-- A conversion changes nothing if its bytes are those of the text it came from. -/
theorem Converts.unchanged_iff (converts : Converts place settings files input source c bytes) :
    c.changed = false ↔ Text.encode source = .ok bytes := by
  -- Encoding is undone by decoding, so texts with the same bytes are the same.
  obtain ⟨_, converted, _⟩ := attempt_eq_ok.mp converts.had
  rw [changed_eq_false_iff converted]
  constructor
  · rintro rfl
    exact converts.encoded
  · intro encoded
    exact Except.ok.inj ((Text.decode_encode converts.encoded).symm.trans
      (Text.decode_encode encoded))

/-- Where an unchanged input is replaced, its bytes stay just if they hold no carriage return. -/
theorem Converts.replaced_iff (converts : Converts place settings files input source c bytes)
    (rooted : input.Rooted) (unchanged : c.changed = false) {old : List UInt8}
    (held : files.get input.names = some (.file old)) : bytes = old ↔ 0x0d ∉ old := by
  -- The text is that of the old bytes with its line breaks made the same, and it is written back.
  obtain ⟨old', raw, _, _, there, decoded, unified⟩ := converts.file rooted
  obtain rfl : old' = old := by simpa [there] using held
  rw [converts.unchanged_iff, ← unified] at unchanged
  exact Text.encode_unifyBreaks decoded unchanged

/-- An input without carriage returns is unchanged if replacing it leaves its bytes. -/
theorem Converts.unchanged_of_kept (converts : Converts place settings files input source c bytes)
    (rooted : input.Rooted) (held : files.get input.names = some (.file bytes))
    (plain : 0x0d ∉ bytes) : c.changed = false := by
  -- Without carriage returns the text that is converted is the text of the bytes.
  obtain ⟨old, raw, _, _, there, decoded, rfl⟩ := converts.file rooted
  obtain rfl : old = bytes := by simpa [there] using held
  have encoded := Text.encode_decode decoded
  have clean : .char '\r' ∉ raw := fun inside => plain ((Text.return_mem_iff encoded).mp inside)
  rw [converts.unchanged_iff, Text.unifyBreaks_eq_self clean]
  exact encoded

/-- A check of an input prints at most, and tells of changes. -/
theorem convertInput_check (checks : settings.check = true)
    (had : attempt place settings input s.files = .ok (.ok (source, c))) :
    ∃ s', convertInput place settings input s = (s', .ok (if c.changed then 1 else 0)) ∧
      s'.files = s.files := by
  -- What is printed goes to the streams, and no file is touched.
  rw [convertInput_eq, had]
  dsimp only
  rw [finish, if_pos checks, showChanges]
  cases c.changed with
  | false => exact ⟨_, rfl, files_foldl_complain _ s⟩
  | true => exact ⟨_, rfl, files_foldl_complain _ s⟩

/-- Whatever an input's text is converted to, the same text is converted to where the same paths are
files. -/
theorem Converts.congr (converts : Converts place settings files input source c bytes)
    (read : files'.readText place.directory input.text = .ok source)
    (alike : ∀ path, files'.isFile place.directory path = files.isFile place.directory path) :
    Converts place settings files' input source c bytes := by
  -- The files around a text enter by which paths are files, and in no other way.
  obtain ⟨_, converted, complete⟩ := attempt_eq_ok.mp converts.had
  have same : files'.isFile place.directory = files.isFile place.directory := funext alike
  exact ⟨attempt_eq_ok.mpr ⟨read, same ▸ converted, same ▸ complete⟩, converts.encoded⟩

end Inputs

section Runs

variable {place : Workplace} {settings : Settings} {files : FileTree}

/-- Whether converting an input changes its text. -/
def Unchanged (place : Workplace) (settings : Settings) (files : FileTree) (input : Route) :
    Prop :=
  ∀ source c, attempt place settings input files = .ok (.ok (source, c)) → c.changed = false

/-- A check of inputs tells whether all are unchanged. -/
theorem convertInputs_check (checks : settings.check = true) {todo : List Route}
    (convertible : ∀ input ∈ todo, ∃ source c bytes,
      Converts place settings files input source c bytes) {s : Session} (same : s.files = files)
    (status : Nat) :
    ∃ s' code, convertInputs place settings todo status s = (s', .ok code) ∧ s'.files = files ∧
      (code = 0 ↔ status = 0 ∧ ∀ input ∈ todo, Unchanged place settings files input) := by
  -- The status so far is generalized: a step takes the larger of it and its own, which is zero just
  -- if both are.
  induction todo generalizing s status with
  | nil => exact ⟨s, status, rfl, same, by simp⟩
  | cons input rest ih =>
    obtain ⟨source, c, bytes, converts⟩ := convertible input List.mem_cons_self
    obtain ⟨middle, here, kept⟩ := convertInput_check (s := s) checks (same ▸ converts.had)
    obtain ⟨s', code, later, files_eq, tells⟩ := ih
      (fun input inside => convertible input (List.mem_cons_of_mem _ inside)) (kept.trans same)
      (max status (if c.changed then 1 else 0))
    refine ⟨s', code, convertInputs_cons_eq_ok.mpr ⟨middle, _, here, later⟩, files_eq, ?_⟩
    -- What is had of an input is unique, so one conversion speaks for all of them.
    have first : Unchanged place settings files input ↔ c.changed = false := by
      constructor
      · intro unchanged
        exact unchanged source c converts.had
      · intro unchanged source' c' had
        cases converts.had.symm.trans had
        exact unchanged
    rw [tells, List.forall_mem_cons, first]
    cases c.changed with
    | false => simp
    | true => simp

/-- Inputs that come more than once are unchanged. -/
def Steady (place : Workplace) (settings : Settings) (files : FileTree)
    (inputs : List Route) : Prop :=
  inputs.Pairwise fun input other => input = other → Unchanged place settings files input

/-- A tree in which some inputs have been replaced: what is left to do reads as before. -/
structure Ready (place : Workplace) (files : FileTree) (todo : List Route)
    (files' : FileTree) : Prop where
  alike : ∀ path, files'.isFile place.directory path = files.isFile place.directory path
  read : ∀ input ∈ todo, files'.readText place.directory input.text =
    files.readText place.directory input.text

/-- What is left to do is converted as it would have been to begin with. -/
theorem Ready.converts {todo : List Route} {files' : FileTree}
    (ready : Ready place files todo files') {input : Route} (listed : input ∈ todo)
    {source : Text} {c : Conversion} {bytes : List UInt8}
    (converts : Converts place settings files input source c bytes) :
    Converts place settings files' input source c bytes :=
  converts.congr ((ready.read input listed).trans (attempt_eq_ok.mp converts.had).1) ready.alike

/-- An input is replaced, and the others read as before: those that are the same one are
unchanged. -/
theorem Ready.put {input : Route} {rest : List Route} {now : FileTree}
    (rooted : ∀ other ∈ input :: rest, other.Rooted)
    (ready : Ready place files (input :: rest) now) {source : Text} {c : Conversion}
    {bytes : List UInt8} (converts : Converts place settings now input source c bytes)
    (convertible : ∀ other ∈ rest, ∃ source c bytes,
      Converts place settings now other source c bytes)
    (steady : ∀ other ∈ rest, input = other → c.changed = false) :
    Ready place files rest (now.put input.names (.file bytes)) := by
  obtain ⟨old, raw, clean, located, there, _, unified⟩ :=
    converts.file (rooted input List.mem_cons_self)
  have free : now.get input.names ≠ some .directory := by simp [there]
  have same := FileTree.sameDirectories_put free bytes
  refine ⟨fun path => (FileTree.isFile_put there path).trans (ready.alike path), ?_⟩
  intro other inside
  rw [← ready.read other (List.mem_cons_of_mem _ inside)]
  by_cases again : input = other
  · subst again
    -- The bytes are those of the text, which has no carriage return left to be unified.
    have encoded := converts.unchanged_iff.mp (steady input inside rfl)
    have plain : Text.unifyBreaks source = source :=
      Text.unifyBreaks_eq_self (unified ▸ Text.not_mem_unifyBreaks raw)
    rw [(attempt_eq_ok.mp converts.had).1]
    refine FileTree.readText_eq_ok.mpr ⟨bytes, source, FileTree.read_eq_ok.mpr
      ⟨clean, input.names, FileTree.locate_of_same same located, ?_⟩,
      Text.decode_encode encoded, plain⟩
    rw [FileTree.get_put _ (FileTree.ne_root free), if_pos rfl]
  · obtain ⟨_, _, _, converts'⟩ := convertible other inside
    have rooted' := rooted other (List.mem_cons_of_mem _ inside)
    obtain ⟨_, _, _, located', _⟩ := converts'.file rooted'
    refine FileTree.readText_congr same located' ?_
    rw [FileTree.get_put _ (FileTree.ne_root free), if_neg]
    intro taken
    exact again ((rooted input List.mem_cons_self).eq_of_names rooted' taken.symm)

/-- Replacing inputs leaves the bytes of its conversion in the place of each. -/
theorem convertInputs_replace (saves : settings.check = false) (replaces : settings.inPlace = true)
    (plain : settings.target? = none) {todo : List Route}
    (rooted : ∀ input ∈ todo, input.Rooted)
    (convertible : ∀ input ∈ todo, ∃ source c bytes,
      Converts place settings files input source c bytes)
    (steady : Steady place settings files todo) {s : Session}
    (ready : Ready place files todo s.files) (status : Nat) :
    ∃ s' code, convertInputs place settings todo status s = (s', .ok code) ∧
      (∀ input ∈ todo, ∀ source c bytes, Converts place settings files input source c bytes →
        s'.files.get input.names = some (.file bytes)) ∧
      ∀ at_, (∀ input ∈ todo, input.names ≠ at_) → s'.files.get at_ = s.files.get at_ := by
  -- The tree so far only has to be ready for the inputs left: what is had of each of them is what
  -- was had of it in the files to begin with.
  induction todo generalizing s status with
  | nil => exact ⟨s, status, rfl, by simp, fun _ _ => rfl⟩
  | cons input rest ih =>
    have rooted_here := rooted input List.mem_cons_self
    obtain ⟨steady_here, steady⟩ := List.pairwise_cons.mp steady
    obtain ⟨source, c, bytes, converts⟩ := convertible input List.mem_cons_self
    have now := ready.converts List.mem_cons_self converts
    obtain ⟨old, raw, clean, located, there, _, unified⟩ := now.file rooted_here
    have writable : Writable place s.files input := ⟨clean, located, by simp [there]⟩
    have output : settings.output input = input := by rw [Settings.output, if_pos replaces]
    obtain ⟨middle, here, files_eq⟩ := (convertInput_iff saves plain rooted_here).mpr
      ⟨_, .saved now.had now.encoded (output.symm ▸ writable), rfl⟩
    rw [output, deliver] at files_eq
    -- Nothing changes but the place of the input itself.
    have got (at_ : List String) : middle.files.get at_ =
        if at_ = input.names then some (.file bytes) else s.files.get at_ := by
      rw [files_eq, FileTree.get_put _ (FileTree.ne_root writable.free)]
    -- An input that comes again later has to read as before. It does, since it is unchanged.
    have next : Ready place files rest middle.files := by
      rw [files_eq]
      refine ready.put rooted now (fun other inside => ?_) fun other inside same =>
        steady_here other inside same source c converts.had
      obtain ⟨source', c', bytes', converts'⟩ :=
        convertible other (List.mem_cons_of_mem _ inside)
      exact ⟨source', c', bytes', ready.converts (List.mem_cons_of_mem _ inside) converts'⟩
    obtain ⟨s', code, later, placed, kept⟩ := ih
      (fun input inside => rooted input (List.mem_cons_of_mem _ inside))
      (fun input inside => convertible input (List.mem_cons_of_mem _ inside)) steady next
      (max status (settings.status input c))
    refine ⟨s', code, convertInputs_cons_eq_ok.mpr ⟨middle, _, here, later⟩, ?_, ?_⟩
    · intro other listed source' c' bytes' converts'
      -- A file that is named again holds what its last conversion left; any other holds what this
      -- step did, for no later step writes to it.
      by_cases again : other ∈ rest
      · exact placed other again source' c' bytes' converts'
      · obtain rfl := (List.mem_cons.mp listed).resolve_right again
        obtain rfl := converts.unique converts'
        rw [kept, got, if_pos rfl]
        intro other inside same
        exact again ((rooted other (List.mem_cons_of_mem _ inside)).eq_of_names
          rooted_here same ▸ inside)
    · intro at_ clear
      rw [kept at_ fun other inside => clear other (List.mem_cons_of_mem _ inside), got,
        if_neg (Ne.symm (clear input List.mem_cons_self))]

end Runs

section Commands

variable {place : Workplace} {settings : Settings} {s : Session}

/-- The settings for a check. -/
def Settings.checking (settings : Settings) : Settings :=
  { settings with check := true, inPlace := false }

/-- The settings by which inputs are replaced. -/
def Settings.replacing (settings : Settings) : Settings :=
  { settings with check := false, inPlace := true }

/-- A check and a replacement of the same inputs, which can all be converted. The check reports no
change just if replacing distinct inputs leaves their bytes, as far as these hold no carriage
return. Bytes with a carriage return change unreported. -/
theorem check_agrees_replacing (named : place.Named) (plain : settings.target? = none)
    (clean : ∀ path ∈ settings.inputs, holdsNull path = false)
    (convertible : ∀ input ∈ settings.routes place,
      isConvertible place settings s.files input) :
    ∃ s₁ status, convertCommand place settings.checking s = (s₁, .ok status) ∧
      s₁.files = s.files ∧
      (status = 0 ∨ (settings.routes place).Nodup →
        ∃ s₂ code, convertCommand place settings.replacing s = (s₂, .ok code) ∧
          (status = 0 → ∀ input ∈ settings.routes place, ∀ bytes,
            s.files.get input.names = some (.file bytes) →
              (s₂.files.get input.names = s.files.get input.names ↔ 0x0d ∉ bytes)) ∧
          ((settings.routes place).Nodup →
            (∀ input ∈ settings.routes place, ∀ bytes,
              s.files.get input.names = some (.file bytes) → 0x0d ∉ bytes) →
            (status = 0 ↔ ∀ input ∈ settings.routes place,
              s₂.files.get input.names = s.files.get input.names))) := by
  have rooted : ∀ input ∈ settings.routes place, input.Rooted :=
    fun input listed => rooted_of_mem_routes named listed
  -- Neither setting matters before anything is written.
  have checkable : ∀ input ∈ settings.routes place, ∃ source c bytes,
      Converts place settings.checking s.files input source c bytes :=
    fun input listed => exists_converts (convertible input listed)
  have replaceable : ∀ input ∈ settings.routes place, ∃ source c bytes,
      Converts place settings.replacing s.files input source c bytes :=
    fun input listed => exists_converts (convertible input listed)
  have plain₁ : settings.checking.target? = none := plain
  have plain₂ : settings.replacing.target? = none := plain
  obtain ⟨s₁, status, checked, same, tells⟩ := convertInputs_check rfl checkable rfl 0
  refine ⟨s₁, status, (convertCommand_eq_ok plain₁).mpr ⟨clean, checked⟩, same, fun known => ?_⟩
  have unchanged (zero : status = 0) : ∀ input ∈ settings.routes place,
      Unchanged place settings.replacing s.files input := (tells.mp zero).2
  have steady : Steady place settings.replacing s.files (settings.routes place) := by
    rcases known with zero | distinct
    · exact List.pairwise_of_forall_mem_list fun input listed _ _ _ => unchanged zero input listed
    · exact distinct.imp fun differ same => absurd same differ
  obtain ⟨s₂, code, replaced, placed, _⟩ := convertInputs_replace rfl rfl plain₂ rooted replaceable
    steady ⟨fun _ => rfl, fun _ _ => rfl⟩ 0
  have tells_bytes (zero : status = 0) : ∀ input ∈ settings.routes place, ∀ old,
      s.files.get input.names = some (.file old) →
        (s₂.files.get input.names = s.files.get input.names ↔ 0x0d ∉ old) := by
    intro input listed old held
    obtain ⟨source, c, bytes, converts⟩ := replaceable input listed
    rw [placed input listed source c bytes converts, held]
    simpa using converts.replaced_iff (rooted input listed)
      (unchanged zero input listed source c converts.had) held
  refine ⟨s₂, code, (convertCommand_eq_ok plain₂).mpr ⟨clean, replaced⟩, tells_bytes, ?_⟩
  · intro _ bare
    constructor
    · intro zero input listed
      obtain ⟨_, _, _, converts⟩ := replaceable input listed
      obtain ⟨old, _, _, _, held, _⟩ := converts.file (rooted input listed)
      exact (tells_bytes zero input listed old held).mpr (bare input listed old held)
    · intro kept
      refine tells.mpr ⟨rfl, fun input listed source c had => ?_⟩
      obtain ⟨source', c', bytes, converts⟩ := replaceable input listed
      obtain ⟨rfl, rfl⟩ : source' = source ∧ c' = c := by
        simpa using converts.had.symm.trans had
      have held := kept input listed
      rw [placed input listed source' c' bytes converts] at held
      exact converts.unchanged_of_kept (rooted input listed) held.symm
        (bare input listed bytes held.symm)

/-- Of two inputs that a check finds unchanged, the one with a carriage return changes. -/
theorem check_agrees_replacing_mixed :
    let place : Workplace := { directory := [], reader := Reader.strict }
    let files : FileTree := { entries := [
      (["a.js"], .ofString "x;\r\n"), (["b.js"], .ofString "y;\n")] }
    let settings : Settings := { inputs := ["a.js", "b.js"] }
    ∃ s₁ s₂ code, convertCommand place settings.checking { files } = (s₁, .ok 0) ∧
      convertCommand place settings.replacing { files } = (s₂, .ok code) ∧
      s₂.files.get ["a.js"] ≠ files.get ["a.js"] ∧ s₂.files.get ["b.js"] = files.get ["b.js"] := by
  intro place files settings
  have checked : (convertCommand place settings.checking { files }).2 = .ok 0 := by decide +kernel
  obtain ⟨s₁, status, check, _, agrees⟩ := @check_agrees_replacing place settings { files }
    (by decide) rfl (by decide) (by decide +kernel)
  obtain rfl : status = 0 := by
    rw [check] at checked
    exact Except.ok.inj checked
  obtain ⟨s₂, code, replaced, bytes, _⟩ := agrees (.inl rfl)
  -- Whether a file keeps its bytes is whether unifying its line ends leaves them.
  have first := bytes rfl (place.route "a.js") (by decide +kernel) _ rfl
  have second := bytes rfl (place.route "b.js") (by decide +kernel) _ rfl
  refine ⟨s₁, s₂, code, check, replaced, fun kept => ?_, ?_⟩
  · exact first.mp kept (by decide +kernel)
  · exact second.mpr (by decide +kernel)

/-- A carriage return is lost although a check finds no change. -/
theorem check_silent :
    let place : Workplace := { directory := [], reader := Reader.strict }
    let files : FileTree := { entries := [(["a.js"], .ofString "x;\r\n")] }
    let settings : Settings := { inputs := ["a.js"] }
    let replaced := convertCommand place settings.replacing { files }
    (convertCommand place settings.checking { files }).2 = .ok 0 ∧ replaced.2 = .ok 0 ∧
      replaced.1.files.get ["a.js"] = some (.ofString "x;\n") ∧
      replaced.1.files.get ["a.js"] ≠ files.get ["a.js"] := by
  decide +kernel

end Commands

end ModuleLift.Command
