import ModuleLift.Conversion
import ModuleLift.Proofs.Lift.Failure
import ModuleLift.Proofs.Specifier
import ModuleLift.Proofs.Text.Utf8

/-! What a conversion depends on: of the files around the program, only on those it asks for. -/

namespace ModuleLift

namespace Specifier

section

variable {isFile other : Text → Bool}

variable {baseDir : Text} {extensions : List Text} {specifier : Text}

/-- A specifier is completed alike wherever the paths asked for are. -/
theorem resolve_congr (agree : ∀ path ∈ (resolve isFile baseDir extensions specifier).probes,
      other path = isFile path) :
    resolve other baseDir extensions specifier = resolve isFile baseDir extensions specifier := by
  -- Completing is a search, and a search depends on the answers it gets.
  rw [resolve_eq] at agree
  rw [resolve_eq, resolve_eq, search_congr agree]

end

end Specifier

namespace Lift

/-- Whether all the paths asked for in completing the specifiers so far are on record. -/
def Recorded (s : Surroundings) (p : Progress) : Prop :=
  ∀ specifier ∈ p.specifiers,
    (Specifier.resolve s.isFile s.baseDir s.extensions specifier).probes ⊆ p.probes

/-- A part of the lift that keeps record of the paths it asks for, and depends on files through
these alone. -/
structure Probing {β : Type} (progress : β → Progress) (s : Surroundings)
    (part : Surroundings → Progress → β) : Prop where
  keeps : ∀ p, p.probes ⊆ (progress (part s p)).probes
  records : ∀ p, Recorded s p → Recorded s (progress (part s p))
  depends : ∀ p isFile,
    (∀ path ∈ (progress (part s p)).probes, isFile path = s.isFile path) →
      part { s with isFile } p = part s p

section Parts

variable {α β γ : Type} {s : Surroundings}

/-- A part that asks for nothing. -/
theorem probing_of_still {progress : β → Progress} {part : Surroundings → Progress → β}
    (still : ∀ p isFile, part { s with isFile } p = part s p)
    (kept : ∀ p, (progress (part s p)).probes = p.probes ∧
      (progress (part s p)).specifiers = p.specifiers) : Probing progress s part where
  keeps p := by rw [(kept p).1]; exact List.Subset.refl _
  records p recorded := by
    -- Without questions there are no answers to depend on.
    intro specifier held
    rw [(kept p).2] at held
    rw [(kept p).1]
    exact recorded specifier held
  depends p isFile _ := still p isFile

/-- Two parts one after the other: the record of the first is kept in that of the second. -/
theorem Probing.bind {before : β → Progress} {after : γ → Progress}
    {first : Surroundings → Progress → β} {part : Surroundings → Progress → γ}
    (one : Probing before s first) (next : β → Surroundings → Progress → γ)
    (two : ∀ b, Probing after s (next b))
    (both : ∀ s p, part s p = next (first s p) s (before (first s p))) : Probing after s part where
  keeps p := by
    rw [both]
    exact List.Subset.trans (one.keeps p) ((two _).keeps _)
  records p recorded := by
    rw [both]
    exact (two _).records _ (one.records p recorded)
  depends p isFile agree := by
    rw [both] at agree
    -- Paths that the first part asks for are still on record after the second.
    have early : first { s with isFile } p = first s p :=
      one.depends p isFile fun path asked => agree path ((two _).keeps _ asked)
    rw [both, both, early]
    exact (two _).depends _ isFile agree

/-- What is made of the outcome of a part does not matter. -/
theorem Probing.map {before : β → Progress} {after : γ → Progress}
    {first : Surroundings → Progress → β} {part : Surroundings → Progress → γ}
    (one : Probing before s first) (change : β → γ) (kept : ∀ b, after (change b) = before b)
    (made : ∀ s p, part s p = change (first s p)) : Probing after s part where
  keeps p := by
    -- The record of the outcome is that of the part.
    rw [made, kept]
    exact one.keeps p
  records p recorded := by
    rw [made, kept]
    exact one.records p recorded
  depends p isFile agree := by
    rw [made, kept] at agree
    rw [made, made, one.depends p isFile agree]

end Parts

section Statements

variable {s : Surroundings}

/-- The one part that asks for files. -/
theorem probing_importSource (target : Tree) (module : Text) :
    Probing Prod.snd s fun s => importSource s target module where
  keeps p := by
    -- A file is asked for at each path that is tried; these are what goes on record.
    rw [importSource, Progress.noteResolved_eq]
    exact List.subset_append_left _ _
  records p recorded := by
    intro specifier held
    rw [importSource, Progress.noteResolved_eq] at held
    rw [importSource, Progress.noteResolved_eq]
    rcases List.mem_append.mp held with old | new
    · exact List.Subset.trans (recorded specifier old) (List.subset_append_left _ _)
    · obtain rfl := List.mem_singleton.mp new
      exact List.subset_append_right _ _
  depends p isFile agree := by
    rw [importSource, Progress.noteResolved_eq] at agree
    rw [importSource, importSource,
      Specifier.resolve_congr fun path asked => agree path (List.mem_append_right _ asked)]

/-- A flat pattern is imported from one module. -/
theorem probing_destructure (declarator : Tree) (loader : Loader) (module : Text) :
    Probing Prod.snd s fun s => destructure s declarator loader module := by
  cases loader with
  | plain target =>
    cases found : patternPairs? (declarator.get "id") with
    | none =>
      -- A pattern that is refused asks for nothing.
      have still (s : Surroundings) (p : Progress) :
          destructure s declarator (.plain target) module p =
            (.kept declarator, p.report .destructured (declarator.get "id")) := by
        simp only [destructure, found]
      exact probing_of_still (fun p isFile => by rw [still, still]) fun p => by
        rw [still]
        exact ⟨rfl, rfl⟩
    | some pairs =>
      refine (probing_importSource target module).map
        (fun b => (Fate.imported (.importNamed pairs b.1), b.2)) (fun _ => rfl) fun s p => ?_
      simp only [destructure, found, Loader.target]
  | member target property => exact probing_of_still (fun _ _ => rfl) fun _ => ⟨rfl, rfl⟩
  | factory target arguments => exact probing_of_still (fun _ _ => rfl) fun _ => ⟨rfl, rfl⟩

/-- A name is bound to one module, a member of it or what its factory returns. -/
theorem probing_bindName (declarator : Tree) (loader : Loader) (module : Text) :
    Probing Prod.snd s fun s => bindName s declarator loader module := by
  have asks := probing_importSource (s := s) loader.target module
  cases loader with
  | plain target =>
    exact asks.map (fun b => (Fate.imported (.importDefault (declarator.get "id").name b.1), b.2))
      (fun _ => rfl) fun _ _ => rfl
  | member target property =>
    exact asks.map
      (fun b => (Fate.imported
        (.importNamed [(property.name, (declarator.get "id").name)] b.1), b.2))
      (fun _ => rfl) fun _ _ => rfl
  | factory target arguments =>
    -- The name of the factory is chosen after the file was asked for.
    refine asks.bind (fun b s p =>
      (Fate.factored (.importDefault
          (freshName ((declarator.get "id").name ++ s.factorySuffix) p.names.bound) b.1)
        (.variableDeclarator (declarator.get "id") (.call (.identifier
          (freshName ((declarator.get "id").name ++ s.factorySuffix) p.names.bound)) arguments)),
        p.take (freshName ((declarator.get "id").name ++ s.factorySuffix) p.names.bound)))
      (fun b => probing_of_still (fun _ _ => rfl) fun _ => ⟨rfl, rfl⟩) fun _ _ => rfl

/-- A declarator asks for files only if an import is made for it. -/
theorem probing_declarator (d : Tree) : Probing Prod.snd s fun s => declarator s d := by
  -- Which branch is taken does not depend on files.
  unfold declarator
  cases Loader.classify (d.get "init") with
  | none => exact probing_of_still (fun _ _ => rfl) fun _ => ⟨rfl, rfl⟩
  | some loader =>
    dsimp only
    cases loader.module? with
    | none => exact probing_of_still (fun _ _ => rfl) fun _ => ⟨rfl, rfl⟩
    | some module =>
      dsimp only
      split
      · exact probing_destructure d loader module
      · split
        · exact probing_bindName d loader module
        · exact probing_of_still (fun _ _ => rfl) fun _ => ⟨rfl, rfl⟩

/-- The declarators go on from one another's record. -/
theorem probing_declarators (ds : List Tree) :
    Probing Prod.snd s fun s => declarators s ds := by
  -- The induction binds the record of one declarator to the rest.
  induction ds with
  | nil => exact probing_of_still (fun _ _ => rfl) fun _ => ⟨rfl, rfl⟩
  | cons d rest ih =>
    exact (probing_declarator d).bind
      (fun b s p => (b.1 :: (declarators s rest p).1, (declarators s rest p).2))
      (fun b => ih.map (fun c => (b.1 :: c.1, c.2)) (fun _ => rfl) fun _ _ => rfl) fun _ _ => rfl

/-- A declaration asks for what its declarators ask for. -/
theorem probing_replaceDeclaration (t : Tree) :
    Probing Prod.snd s fun s => replaceDeclaration s t :=
  (probing_declarators (t.get "declarations").items).bind
    (fun b s p => (joinFates s.marker t b.1, p))
    (fun _ => probing_of_still (fun _ _ => rfl) fun _ => ⟨rfl, rfl⟩) fun _ _ => rfl

/-- Exports ask for nothing. -/
theorem probing_replaceExports (t value : Tree) :
    Probing Prod.snd s fun _ => replaceExports t value := by
  -- Whether exports are made is told by the statement and by what was made before.
  refine probing_of_still (fun _ _ => rfl) fun p => ?_
  rw [replaceExports]
  split
  · exact ⟨rfl, rfl⟩
  · split
    · exact ⟨rfl, rfl⟩
    · split <;> exact ⟨rfl, rfl⟩

/-- An expression statement asks for a file only if it is an import. -/
theorem probing_replaceExpression (t : Tree) :
    Probing Prod.snd s fun s => replaceExpression s t := by
  -- Of the calls of `require` only a plain one with a literal becomes an import.
  unfold replaceExpression
  cases Loader.classify (t.get "expression") with
  | none =>
    dsimp only
    cases exportsValue? t with
    | none => exact probing_of_still (fun _ _ => rfl) fun _ => ⟨rfl, rfl⟩
    | some value => exact probing_replaceExports t value
  | some loader =>
    dsimp only
    cases loader.module? with
    | none => exact probing_of_still (fun _ _ => rfl) fun _ => ⟨rfl, rfl⟩
    | some module =>
      cases loader with
      | plain target =>
        exact (probing_importSource target module).map
          (fun b => (Replacement.replaced [.importEffects b.1], b.2))
          (fun _ => rfl) fun _ _ => rfl
      | member target property => exact probing_of_still (fun _ _ => rfl) fun _ => ⟨rfl, rfl⟩
      | factory target arguments => exact probing_of_still (fun _ _ => rfl) fun _ => ⟨rfl, rfl⟩

/-- A top-level statement asks for what the handler of its kind asks for. -/
theorem probing_replaceStatement (t : Tree) :
    Probing Prod.snd s fun s => replaceStatement s t := by
  -- The kind decides, and files do not matter for that.
  unfold replaceStatement
  split
  · exact probing_replaceDeclaration t
  · split
    · exact probing_replaceExpression t
    · exact probing_of_still (fun _ _ => rfl) fun _ => ⟨rfl, rfl⟩

/-- Where the outcome is put makes no difference to that. -/
theorem probing_statement (t : Tree) : Probing Prod.snd s fun s => statement s t :=
  (probing_replaceStatement t).map (fun b => (b.1.nodes t.readRegion, b.2)) (fun _ => rfl)
    fun _ _ => rfl

/-- Noting names and reporting on what lies below ask for nothing. -/
theorem probing_step (t : Tree) : Probing (·.2.2) s fun s => step s t := by
  -- Noting comes first, then the statement is dealt with.
  have noted : Probing Prod.snd s fun s p => (t.annotate s.marker false,
      (p.mention t.mentions).reportAll t.buriedDiagnostics) :=
    probing_of_still (fun _ _ => rfl) fun _ => ⟨rfl, rfl⟩
  exact noted.bind
    (fun b s p => ((statement s b.1.1 p).1, b.1.2, (statement s b.1.1 p).2))
    (fun b => (probing_statement b.1.1).map (fun c => (c.1, b.1.2, c.2)) (fun _ => rfl)
      fun _ _ => rfl) fun _ _ => rfl

/-- The statements go on from one another's record. -/
theorem probing_steps (ts : List Tree) : Probing (·.2.2) s fun s => steps s ts := by
  -- The induction binds the record of one statement to the rest.
  induction ts with
  | nil => exact probing_of_still (fun _ _ => rfl) fun _ => ⟨rfl, rfl⟩
  | cons t rest ih =>
    exact (probing_step t).bind
      (fun b s p => (b.1 ++ (steps s rest p).1, b.2.1 || (steps s rest p).2.1,
        (steps s rest p).2.2))
      (fun b => ih.map (fun c => (b.1 ++ c.1, b.2.1 || c.2.1, c.2.2)) (fun _ => rfl)
        fun _ _ => rfl) fun _ _ => rfl

end Statements

end Lift

section Conversions

variable {ledger : Ledger} {s : Surroundings} {program : Tree}

/-- A program is lifted alike wherever the paths it asks for are. -/
theorem liftWith_congr {isFile : Text → Bool}
    (agree : ∀ lifted, liftWith ledger s program = .ok lifted →
      ∀ path ∈ lifted.probes, isFile path = s.isFile path) :
    liftWith ledger { s with isFile } program = liftWith ledger s program := by
  -- Whether it fails depends on the names and on the statements, but not on files.
  have names :
      (Lift.steps { s with isFile } (program.get "body").items (.ofLedger ledger)).2.2.names =
        (Lift.steps s (program.get "body").items (.ofLedger ledger)).2.2.names := by
    rw [Lift.names_steps, Lift.names_steps]
    rfl
  rw [Lift.liftWith_eq] at agree
  rw [Lift.liftWith_eq, Lift.liftWith_eq, names]
  split
  · rename_i isProgram
    rw [if_pos isProgram] at agree
    split
    · rename_i fits
      have same := (Lift.probing_steps (s := s) (program.get "body").items).depends
        (Progress.ofLedger ledger) isFile (agree _ (if_pos fits))
      rw [Lift.liftedOf, Lift.liftedOf, same]
    · rfl
  · rfl

/-- All that was asked for in completing specifiers is on record. -/
theorem probes_of_lifted {lifted : Lifted} (done : liftWith ledger s program = .ok lifted)
    {specifier : Text} (held : specifier ∈ lifted.specifiers) :
    (Specifier.resolve s.isFile s.baseDir s.extensions specifier).probes ⊆ lifted.probes := by
  -- At the start no specifier is on record, and every step records what it asks.
  obtain rfl := Lift.eq_liftedOf ledger s done
  refine (Lift.probing_steps (s := s) (program.get "body").items).records
    (Progress.ofLedger ledger) ?_ specifier held
  intro other none
  cases none

/-- What a text at a path is lifted with. -/
def Options.surroundings (options : Options) (isFile : Text → Bool) (path : Text) :
    Surroundings :=
  { baseDir := Path.directory path
    extensions := options.extensions
    isFile
    factorySuffix := options.factorySuffix
    marker := options.marker }

/-- The paths asked for in converting a text, whether or not that succeeds. -/
def asked (reader : Reader) (options : Options) (isFile : Text → Bool) (path source : Text) :
    List Text :=
  match reader.unit options (maskHashbang source) with
  | .error _ => []
  | .ok unit =>
    match liftWith (Scope.analyze unit.1) (options.surroundings isFile path) unit.1 with
    | .error _ => []
    | .ok lifted => lifted.probes

/-- The conversion that a lifted text gives, unless it cannot be written. -/
def conversionOf (options : Options) (source : Text) (unit : Tree × List Diagnostic)
    (lifted : Lifted) : Except ConversionError Conversion := do
  let emitted ← (emit source options.finalNewline lifted.program).mapError .unwritten
  return {
    code := emitted.text
    changed := emitted.changed
    diagnostics := unit.2 ++ lifted.diagnostics
    specifiers := lifted.specifiers
    localModules := lifted.localModules
    evalCalls := (Scope.analyze unit.1).evalCalls
    probes := lifted.probes }

variable {reader : Reader} {options : Options} {isFile other : Text → Bool} {path source : Text}

/-- A text that cannot be read is not converted. -/
theorem convertWith_of_unread {fault : Grammar.Fault}
    (unread : reader.unit options (maskHashbang source) = .error fault) :
    convertWith reader options isFile path source = .error (.unreadable fault) := by
  -- Reading comes first.
  rw [convertWith, unread]
  rfl

/-- Files matter only where a text is lifted. -/
theorem convertWith_of_read {unit : Tree × List Diagnostic}
    (read : reader.unit options (maskHashbang source) = .ok unit) :
    convertWith reader options isFile path source =
      ((liftWith (Scope.analyze unit.1) (options.surroundings isFile path) unit.1).mapError
        .unlifted >>= conversionOf options source unit) := by
  -- Reading comes first and asks for no files.
  rw [convertWith, read]
  rfl

/-- A text is converted alike wherever the paths it asks for are. -/
theorem convertWith_congr
    (agree : ∀ path' ∈ asked reader options isFile path source, other path' = isFile path') :
    convertWith reader options other path source =
      convertWith reader options isFile path source := by
  rw [asked] at agree
  cases read : reader.unit options (maskHashbang source) with
  | error fault => rw [convertWith_of_unread read, convertWith_of_unread read]
  | ok unit =>
    rw [read] at agree
    -- Files are asked for only while lifting, and by one record of paths.
    have same : liftWith (Scope.analyze unit.1) (options.surroundings other path) unit.1 =
        liftWith (Scope.analyze unit.1) (options.surroundings isFile path) unit.1 := by
      refine liftWith_congr (s := options.surroundings isFile path) fun lifted done => ?_
      dsimp only at agree
      rw [done] at agree
      exact agree
    rw [convertWith_of_read read, convertWith_of_read read, same]

/-- A conversion tells what its text was lifted to and written as. -/
theorem of_convertWith {c : Conversion}
    (converted : convertWith reader options isFile path source = .ok c) :
    ∃ unit lifted emitted, reader.unit options (maskHashbang source) = .ok unit ∧
      liftWith (Scope.analyze unit.1) (options.surroundings isFile path) unit.1 = .ok lifted ∧
      emit source options.finalNewline lifted.program = .ok emitted ∧
      c.code = emitted.text ∧ c.changed = emitted.changed ∧ c.specifiers = lifted.specifiers := by
  -- A fault at any step would have been the outcome.
  cases read : reader.unit options (maskHashbang source) with
  | error fault =>
    rw [convertWith_of_unread read] at converted
    cases converted
  | ok unit =>
    rw [convertWith_of_read read] at converted
    obtain ⟨lifted, done, finished⟩ := bind_eq_ok.mp converted
    obtain ⟨emitted, written, given⟩ := bind_eq_ok.mp finished
    obtain rfl := Except.ok.inj given
    exact ⟨unit, lifted, emitted, rfl, mapError_eq_ok.mp done, mapError_eq_ok.mp written, rfl, rfl,
      rfl⟩

/-- Whatever was asked for in completing a specifier counts as asked for. -/
theorem probes_subset_asked {c : Conversion}
    (converted : convertWith reader options isFile path source = .ok c) {specifier : Text}
    (held : specifier ∈ c.specifiers) :
    (Specifier.resolve isFile (Path.directory path) options.extensions specifier).probes ⊆
      asked reader options isFile path source := by
  -- The specifiers of a conversion are those that were lifted.
  obtain ⟨unit, lifted, emitted, read, done, _, _, _, specifiers⟩ := of_convertWith converted
  rw [asked, read]
  dsimp only
  rw [done]
  exact probes_of_lifted done (specifiers ▸ held)

end Conversions

end ModuleLift
