import ModuleLift.Proofs.Scope.Declared

/-! What became of every call of `require` at the top level: an import took its place, or something
was reported on it. Only a statement that calls what it loads, or reads a member of it, and drops
the result is passed over. -/

namespace ModuleLift

open Emission (ImportsName)

namespace Tree

/-- An import binds the local names of its pairs. -/
theorem localNames_importNamed (pairs : List (Text × Text)) (source : Tree) :
    (importNamed pairs source).localNames = pairs.map (·.2) := by
  -- Nothing is filtered out: each pair has a name on its right.
  have specifiers : ((importNamed pairs source).get "specifiers").items.map (·.get "local") =
      pairs.map fun pair => identifier pair.2 := by
    change List.map _ (pairs.map _) = _
    rw [List.map_map]
    rfl
  have names : ∀ t ∈ pairs.map fun pair => identifier pair.2, t.isIdentifier := by
    rw [List.forall_mem_map]
    exact fun _ _ => rfl
  rw [localNames, specifiers, List.filter_eq_self.mpr names, List.map_map]
  rfl

/-- A place does not change which names are bound. -/
@[simp] theorem localNames_anchor (t : Tree) (region : Region) :
    (t.anchor region).localNames = t.localNames := by
  simp [localNames, anchor]

end Tree

namespace Lift

/-- The specifier that an import of a module is written with. -/
def importPath (s : Surroundings) (module : Text) : Text :=
  (Specifier.resolve s.isFile s.baseDir s.extensions module).path

/-- An import of a module. -/
structure ImportsModule (s : Surroundings) (module : Text) (t : Tree) : Prop where
  isImport : t.isA "ImportDeclaration"
  source : (t.get "source").stringValue? = some (importPath s module)

/-- The source of an import: the literal that `require` was called with, or a completed one. -/
inductive NamesModule (s : Surroundings) (target : Tree) (module : Text) : Tree → Prop where
  | written (complete : importPath s module = module) : NamesModule s target module target
  | completed (quote : Char) :
      NamesModule s target module (.stringLiteral quote (importPath s module))

section Source

variable (s : Surroundings) {target : Tree} {module : Text}

/-- The source of a new import names the module that was loaded. -/
theorem namesModule_importSource (target : Tree) (module : Text) (p : Progress) :
    NamesModule s target module (importSource s target module p).1 := by
  -- The literal is kept if it needs no completing.
  simp only [importSource]
  split
  · exact .written ‹_›
  · exact .completed _

variable {s}

/-- The source of a new import is the completed path. -/
theorem NamesModule.stringValue {source : Tree} (names : NamesModule s target module source)
    (named : target.stringValue? = some module) :
    source.stringValue? = some (importPath s module) := by
  -- A literal that is kept is complete already.
  cases names with
  | written complete => rw [named, complete]
  | completed quote => rfl

/-- An import with such a source is one of the module. -/
theorem NamesModule.importsModule {source : Tree} (names : NamesModule s target module source)
    (named : target.stringValue? = some module) (specifiers : List Tree) :
    ImportsModule s module (.importFrom specifiers source) :=
  ⟨rfl, names.stringValue named⟩

/-- An import in its place is one of the same module. -/
theorem ImportsModule.anchor {t : Tree} (imports : ImportsModule s module t) (region : Region) :
    ImportsModule s module (t.anchor region) :=
  ⟨by rw [Tree.anchor, Tree.isA_mapMark]; exact imports.isImport,
    by rw [Tree.anchor, Tree.get_mapMark]; exact imports.source⟩

end Source

section Declarators

variable (s : Surroundings)

/-- What becomes of a declarator, with the names taken before, and what is reported on it. -/
inductive Settles (bound : List Text) (d : Tree) : Fate → List Diagnostic → Prop where
  | uncalled (other : Loader.classify (d.get "init") = none) : Settles bound d (.kept d) []
  | unnamed {loader : Loader} (called : Loader.classify (d.get "init") = some loader)
      (unnamed : loader.module? = none) :
      Settles bound d (.dynamic d) [.about .dynamicDeclaration d]
  -- A name or a flat pattern is needed to bind what is imported.
  | refused (notice : Notice) {loader : Loader}
      (called : Loader.classify (d.get "init") = some loader) (named : loader.module?.isSome)
      (unfit : d.isLowered = false) :
      Settles bound d (.kept d) [.about notice (d.get "id")]
  | taken {loader : Loader} {module : Text} {specifiers : List Tree} {source : Tree}
      (reports : List Diagnostic) (called : Loader.classify (d.get "init") = some loader)
      (named : loader.module? = some module) (fit : d.isTaken)
      (names : NamesModule s loader.target module source)
      (specifies : ∀ specifier ∈ specifiers, ImportsName specifier)
      (binds : (Tree.importFrom specifiers source).localNames = (d.get "id").patternNames) :
      Settles bound d (.imported (.importFrom specifiers source)) reports
  | factored {target : Tree} {arguments : List Tree} {module : Text} {source : Tree}
      {factory : Text} (reports : List Diagnostic)
      (called : Loader.classify (d.get "init") = some (.factory target arguments))
      (named : target.stringValue? = some module) (fit : d.takesFactory)
      (names : NamesModule s target module source)
      (fresh : factory = freshName ((d.get "id").name ++ s.factorySuffix) bound) :
      Settles bound d (.factored (.importDefault factory source)
        (.variableDeclarator (d.get "id") (.call (.identifier factory) arguments))) reports

/-- Completing a specifier only adds to the reports. -/
theorem reports_importSource (target : Tree) (module : Text) (p : Progress) :
    ∃ reports, (importSource s target module p).2.diagnostics = p.diagnostics ++ reports := by
  -- There is a report if no file was found, and none otherwise.
  rw [importSource, Progress.noteResolved_eq]
  exact ⟨_, rfl⟩

/-- An import binds the names of the target it takes over. -/
theorem Binds.localNames_eq {id source statement : Tree} {loader : Loader}
    (binds : Binds id source loader statement) : statement.localNames = id.patternNames := by
  -- A name binds itself, and a flat pattern the values of its properties.
  cases binds with
  | whole name => exact (Tree.patternNames_name name).symm
  | member name => exact (Tree.patternNames_name name).symm
  | flat pattern found =>
    rw [Tree.patternNames_flat pattern found]
    exact Tree.localNames_importNamed ..

/-- What becomes of a declarator. -/
theorem declarator_settles (d : Tree) (p : Progress) :
    ∃ reports, (declarator s d p).2.diagnostics = p.diagnostics ++ reports ∧
      Settles s p.names.bound d (declarator s d p).1 reports := by
  -- What a declarator can become is listed by its step, and so are the reports.
  have step := declarator_step s d p
  generalize declarator s d p = result at step ⊢
  cases step with
  | uncalled uncalled => exact ⟨[], (List.append_nil _).symm, .uncalled uncalled⟩
  | dynamic called unnamed => exact ⟨_, rfl, .unnamed called unnamed⟩
  | refused called named unfit =>
    exact ⟨_, rfl, .refused _ called (Option.isSome_of_eq_some named) unfit⟩
  | imported called named fit binds =>
    obtain ⟨reports, known⟩ := reports_importSource s _ _ p
    obtain ⟨specifiers, rfl, names⟩ := binds.exists_specifiers
    exact ⟨reports, known, .taken reports called named fit (namesModule_importSource s _ _ p) names
      binds.localNames_eq⟩
  | factored called named fit fresh =>
    obtain ⟨reports, known⟩ := reports_importSource s _ _ p
    exact ⟨reports, known, .factored reports called named fit (namesModule_importSource s _ _ p)
      fresh⟩

/-- Every declarator is settled, and what is reported on it is among the reports. -/
theorem declarators_settle (ds : List Tree) (p : Progress) :
    ∃ reports, (declarators s ds p).2.diagnostics = p.diagnostics ++ reports ∧
      List.Forall₂ (fun d fate => ∃ bound own, own ⊆ reports ∧ Settles s bound d fate own) ds
        (declarators s ds p).1 := by
  -- Each declarator starts from what the ones before it leave, so progress is generalized.
  induction ds generalizing p with
  | nil => exact ⟨[], (List.append_nil _).symm, .nil⟩
  | cons d rest ih =>
    obtain ⟨here, added, settled⟩ := declarator_settles s d p
    obtain ⟨later, more, others⟩ := ih (declarator s d p).2
    refine ⟨here ++ later, ?_, .cons ⟨_, here, List.subset_append_left _ _, settled⟩ ?_⟩
    · simp only [declarators]
      rw [more, added, List.append_assoc]
    · refine others.imp ?_
      rintro d fate ⟨bound, own, within, settled⟩
      exact ⟨bound, own, List.Subset.trans within (List.subset_append_right _ _), settled⟩

/-- The declarators are settled one by one. -/
theorem settled_declarators (ds : List Tree) (p : Progress) :
    List.Forall₂ (fun d fate => ∃ bound own, Settles s bound d fate own) ds
      (declarators s ds p).1 := by
  -- Which reports belong to which declarator is left out.
  obtain ⟨_, _, each⟩ := declarators_settle s ds p
  refine each.imp ?_
  rintro d fate ⟨bound, own, _, settled⟩
  exact ⟨bound, own, settled⟩

end Declarators

section Answers

variable (s : Surroundings)

/-- How a declarator with a call of `require` is answered for: by an import that binds what it
bound, by an import of the factory that is called for it, or by a report. -/
inductive Answers (d : Tree) (loader : Loader) (nodes : List Tree) (reports : List Diagnostic) :
    Prop where
  | taken {module : Text} {u : Tree} (fit : d.isTaken) (named : loader.module? = some module)
      (held : u ∈ nodes) (imports : ImportsModule s module u)
      (binds : u.localNames = (d.get "id").patternNames)
  | factored {module factory : Text} {u : Tree} (fit : d.takesFactory)
      (named : loader.module? = some module) (held : u ∈ nodes)
      (imports : ImportsModule s module u) (binds : u.localNames = [factory])
      (calls : CallsFactory nodes (d.get "id").name factory)
  | reported (notice : Notice) (unfit : d.isLowered = false)
      (told : .about notice d ∈ reports ∨ .about notice (d.get "id") ∈ reports)

variable {s}

/-- What answers for a declarator with the same skeleton and the same places answers for it. -/
theorem Answers.congr {d e : Tree} {loader other : Loader} {nodes : List Tree}
    {reports : List Diagnostic} (answers : Answers s e other nodes reports)
    (skeleton : e.skeleton = d.skeleton) (bare : e.bare = d.bare)
    (modules : other.module? = loader.module?) : Answers s d loader nodes reports := by
  -- Reports are about places, which the bare tree keeps. All else is about the skeleton.
  have told (notice : Notice) : Diagnostic.about notice e = .about notice d := by
    rw [← Tree.about_bare, bare, Tree.about_bare]
  have toldId (notice : Notice) :
      Diagnostic.about notice (e.get "id") = .about notice (d.get "id") := by
    rw [← Tree.about_bare, ← Tree.get_bare, bare, Tree.get_bare, Tree.about_bare]
  have id : (e.get "id").skeleton = (d.get "id").skeleton := by
    rw [← Tree.get_skeleton, skeleton, Tree.get_skeleton]
  cases answers with
  | taken fit named held imports binds =>
    refine .taken ?_ (modules ▸ named) held imports ?_
    · rwa [← Tree.isTaken_skeleton, ← skeleton, Tree.isTaken_skeleton]
    · rw [binds, ← Tree.patternNames_skeleton, id, Tree.patternNames_skeleton]
  | factored fit named held imports binds calls =>
    refine .factored ?_ (modules ▸ named) held imports binds ?_
    · rwa [← Tree.takesFactory_skeleton, ← skeleton, Tree.takesFactory_skeleton]
    · rwa [← Tree.name_skeleton, ← id, Tree.name_skeleton]
  | reported notice unfit reported =>
    refine .reported notice ?_ ?_
    · rwa [← Tree.isLowered_skeleton, ← skeleton, Tree.isLowered_skeleton]
    · rwa [told, toldId] at reported

/-- More reports answer as well. -/
theorem Answers.mono {d : Tree} {loader : Loader} {nodes : List Tree}
    {reports more : List Diagnostic} (answers : Answers s d loader nodes reports)
    (within : reports ⊆ more) : Answers s d loader nodes more := by
  -- Only a report can be missing among fewer.
  cases answers with
  | taken fit named held imports binds => exact .taken fit named held imports binds
  | factored fit named held imports binds calls =>
    exact .factored fit named held imports binds calls
  | reported notice unfit told =>
    exact .reported notice unfit (told.imp (fun found => within found) fun found => within found)

/-- The import made for a declarator stands among the statements. -/
theorem exists_import_assemble (marker : Text) (t : Tree) {u : Tree} {fates : List Fate}
    {fate : Fate} (held : fate ∈ fates) (made : fate.statement? = some u) :
    ∃ region, u.anchor region ∈ assemble marker t fates := by
  -- Where there is an import, the declaration is not kept as it is.
  have imported : u ∈ fates.filterMap Fate.statement? := List.mem_filterMap.mpr ⟨fate, held, made⟩
  rw [assemble_eq (List.ne_nil_of_mem imported)]
  exact exists_anchor_mem _ (List.mem_append_left _ imported)

/-- What a declarator is settled by answers for it in the statements that are put together. -/
theorem Settles.answers {bound : List Text} {d t : Tree} {fate : Fate} {fates : List Fate}
    {own reports : List Diagnostic} {loader : Loader} (settled : Settles s bound d fate own)
    (within : own ⊆ reports) (held : fate ∈ fates)
    (called : Loader.classify (d.get "init") = some loader) (marker : Text) :
    Answers s d loader (assemble marker t fates) reports := by
  -- A report on a declarator is among all reports, and an import made for it among all statements.
  cases settled with
  | uncalled other => simp [called] at other
  | unnamed known unnamed =>
    cases called.symm.trans known
    exact .reported _ (Tree.isLowered_of_unnamed called unnamed)
      (.inl (within (List.mem_singleton_self _)))
  | refused notice known named unfit =>
    exact .reported notice unfit (.inr (within (List.mem_singleton_self _)))
  | taken _ known named fit names specifies binds =>
    cases called.symm.trans known
    obtain ⟨region, found⟩ := exists_import_assemble marker t held rfl
    refine .taken fit named found ((names.importsModule named _).anchor region) ?_
    rw [Tree.localNames_anchor, binds]
  | factored _ known named fit names fresh =>
    cases called.symm.trans known
    obtain ⟨region, found⟩ := exists_import_assemble marker t held rfl
    refine .factored fit named found ((names.importsModule named _).anchor region) ?_
      (callsFactory_assemble held ⟨_, _, _, rfl, rfl⟩)
    rw [Tree.localNames_anchor]
    rfl

/-- What the declarators of a statement declare. -/
def targets (t : Tree) : List Tree := (t.get "declarations").items.map (·.get "id")

/-- The statement made for a declarator is an import. -/
theorem Settles.import_eq {bound : List Text} {d u : Tree} {fate : Fate} {own : List Diagnostic}
    (settled : Settles s bound d fate own) (made : fate.statement? = some u) :
    ∃ specifiers source, u = .importFrom specifiers source := by
  -- Nothing else is made for one.
  cases settled with
  | taken => cases made; exact ⟨_, _, rfl⟩
  | factored => cases made; exact ⟨_, _, rfl⟩
  | _ => cases made

/-- Whether an import is made is told by the declarator alone. -/
theorem Settles.isSome_statement {bound : List Text} {d : Tree} {fate : Fate}
    {own : List Diagnostic} (settled : Settles s bound d fate own) :
    fate.statement?.isSome = d.isLowered := by
  -- Each way to settle a declarator says what the declarator is like.
  cases settled with
  | uncalled other =>
    simp [Fate.statement?, Tree.isLowered, Tree.isTaken, Tree.takesFactory, other]
  | unnamed called unnamed => exact (Tree.isLowered_of_unnamed called unnamed).symm
  | refused notice called named unfit => exact unfit.symm
  | taken _ called named fit => simp [Fate.statement?, Tree.isLowered, fit]
  | factored _ called named fit => simp [Fate.statement?, Tree.isLowered, fit]

/-- A declarator is left unless an import took its place, and still declares the same. -/
theorem Settles.declarator_eq {bound : List Text} {d : Tree} {fate : Fate}
    {own : List Diagnostic} (settled : Settles s bound d fate own) :
    fate.declarator?.map (fun left => left.get "id") =
      if d.isTaken then none else some (d.get "id") := by
  have lowered := settled.isSome_statement
  cases settled with
  | taken _ called named fit => simp [Fate.declarator?, fit]
  -- A factory leaves a declarator of the same name, which calls what is imported.
  | factored _ called named fit =>
    have other : d.isTaken = false := by simp [Tree.isTaken, called]
    rw [other]
    rfl
  -- What is not lowered is kept.
  | _ =>
    have other : d.isTaken = false := (Bool.or_eq_false_iff.mp lowered.symm).1
    rw [other]
    rfl

/-- The declarators left are those that no import took the place of, in order. -/
theorem map_left {ds : List Tree} {fates : List Fate}
    (each : List.Forall₂ (fun d fate => ∃ bound own, Settles s bound d fate own) ds fates) :
    (fates.filterMap Fate.declarator?).map (fun d => d.get "id") =
      (ds.filter fun d => !d.isTaken).map fun d => d.get "id" := by
  -- A declarator that is left keeps its target, also where a factory is called in it.
  induction each with
  | nil => rfl
  | @cons d fate ds fates settled _ ih =>
    obtain ⟨bound, own, settled⟩ := settled
    have here := settled.declarator_eq
    rw [List.filterMap_cons, List.filter_cons]
    cases taken : d.isTaken <;> cases left : fate.declarator? <;> simp_all

/-- A declaration still declares, in order, what no import took over. -/
theorem targets_assemble {marker : Text} {t : Tree} {fates : List Fate}
    (each : List.Forall₂ (fun d fate => ∃ bound own, Settles s bound d fate own)
      (t.get "declarations").items fates) :
    (assemble marker t fates).flatMap targets =
      ((t.get "declarations").items.filter fun d => !d.isTaken).map fun d => d.get "id" := by
  have same (u : Tree) (change : Mark → Mark) : targets (u.mapMark change) = targets u := by
    simp [targets]
  by_cases none : fates.filterMap Fate.statement? = []
  · -- Without an import no declarator was taken.
    have all : ∀ d ∈ (t.get "declarations").items, !d.isTaken := by
      intro d held
      obtain ⟨fate, member, bound, own, settled⟩ := exists_of_forall₂ each held
      have lowered := settled.isSome_statement
      rw [List.filterMap_eq_nil_iff.mp none fate member] at lowered
      simpa using (Bool.or_eq_false_iff.mp lowered.symm).1
    rw [List.filter_eq_self.mpr all, assemble_whole none, List.flatMap_singleton]
    split
    · exact same ..
    · rfl
  · rw [assemble_eq none, flatMap_anchorAll (fun u region => same u _), List.flatMap_append,
      ← map_left each]
    have imports : (fates.filterMap Fate.statement?).flatMap targets = [] := by
      refine List.flatMap_eq_nil_iff.mpr fun u held => ?_
      obtain ⟨fate, member, made⟩ := List.mem_filterMap.mp held
      obtain ⟨d, _, bound, own, settled⟩ := exists_of_forall₂ each.flip member
      obtain ⟨specifiers, source, rfl⟩ := settled.import_eq made
      rfl
    rw [imports, List.nil_append, remainder]
    split
    · rename_i empty
      simp [List.isEmpty_iff.mp empty]
    · rw [List.flatMap_singleton]
      split
      · rw [Tree.comment, same]
        rfl
      · rfl

/-- What becomes of a declaration answers for all of its declarators. -/
theorem declaration_answers {t : Tree} (p : Progress) :
    ∃ own, (declaration s t p).2.diagnostics = p.diagnostics ++ own ∧
      (declaration s t p).1.flatMap targets =
        ((t.get "declarations").items.filter fun d => !d.isTaken).map (·.get "id") ∧
      ∀ d ∈ (t.get "declarations").items, ∀ loader,
        Loader.classify (d.get "init") = some loader →
          Answers s d loader (declaration s t p).1 own := by
  -- Each declarator is settled by a fate of its own, and all fates are assembled.
  obtain ⟨own, added, each⟩ := declarators_settle s (t.get "declarations").items p
  refine ⟨own, added, targets_assemble (settled_declarators s _ p),
    fun d held loader called => ?_⟩
  obtain ⟨fate, member, bound, reports, within, settled⟩ := exists_of_forall₂ each held
  exact settled.answers within member called s.marker

/-- What surrounds a call of `require` is recognized only if the call names a module. -/
theorem literal_of_indirect {t : Tree} {loader : Loader} (called : Loader.classify t = some loader)
    (indirect : ∀ target, loader ≠ .plain target) : loader.module?.isSome := by
  -- A factory or a member is only looked for around a call that names a module.
  cases Loader.calls_of_classify called with
  | plain call => exact absurd rfl (indirect _)
  | factory isCall inner literal => exact literal
  | member isMember inner literal property => exact literal

/-- What becomes of an expression statement with a call of `require`: an import, or a report, unless
the value that is loaded is called or read; then nothing happens. -/
theorem expressionStatement_answers {t : Tree} (p : Progress) :
    ∃ own, (expressionStatement s t p).2.diagnostics = p.diagnostics ++ own ∧
      (∀ target, Loader.classify (t.get "expression") = some (.plain target) →
        (∃ module u, target.stringValue? = some module ∧ (expressionStatement s t p).1 = [u] ∧
          ImportsModule s module u) ∨ .about .dynamicStatement t ∈ own) ∧
      ∀ loader, Loader.classify (t.get "expression") = some loader →
        (∀ target, loader ≠ .plain target) → (expressionStatement s t p).1 = [t] ∧ own = [] := by
  have step := expressionStatement_step s t p
  generalize expressionStatement s t p = result at step ⊢
  cases step with
  | dynamic called unnamed =>
    refine ⟨_, rfl, fun _ _ => .inr (List.mem_singleton_self _), fun loader same indirect => ?_⟩
    -- A call or a property read of the module is recognized only if the module is named.
    have literal := literal_of_indirect same indirect
    rw [called, Option.some_inj] at same
    simp [← same, unnamed] at literal
  | @loaded target module called named =>
    obtain ⟨own, added⟩ := reports_importSource s target module p
    have imports : ImportsModule s module (.importEffects (importSource s target module p).1) :=
      (namesModule_importSource s target module p).importsModule named []
    refine ⟨own, added, fun _ same => .inl ?_, fun _ same indirect => ?_⟩
    · rw [called, Option.some_inj] at same
      cases same
      exact ⟨module, _, named, rfl, imports.anchor _⟩
    · rw [called, Option.some_inj] at same
      exact absurd same.symm (indirect target)
  | discarded called named indirect =>
    refine ⟨[], (List.append_nil _).symm, fun target same => ?_, fun _ _ _ => ⟨rfl, rfl⟩⟩
    rw [called, Option.some_inj] at same
    exact absurd same (indirect target)
  | idle uncalled => exact ⟨[], (List.append_nil _).symm, by simp [uncalled], by simp [uncalled]⟩
  | refused uncalled => exact ⟨_, rfl, by simp [uncalled], by simp [uncalled]⟩
  | exported uncalled => exact ⟨_, rfl, by simp [uncalled], by simp [uncalled]⟩

end Answers

/-- A top-level statement, what it became, and what was reported on it. -/
structure Account where
  statement : Tree
  nodes : List Tree
  reports : List Diagnostic

/-- An account in which every call of `require` is answered for. A declarator is taken over by an
import, calls a factory that is imported, or is reported; the others are left, in order. A statement
that only loads becomes an import or is reported. One that calls or reads what it loads is kept, and
nothing is reported on it. -/
structure Account.Complete (s : Surroundings) (a : Account) : Prop where
  declarators : a.statement.isA "VariableDeclaration" →
    ∀ d ∈ (a.statement.get "declarations").items, ∀ loader,
      Loader.classify (d.get "init") = some loader → Answers s d loader a.nodes a.reports
  left : a.statement.isA "VariableDeclaration" →
    (a.nodes.flatMap targets).map Tree.skeleton =
      ((a.statement.get "declarations").items.filter fun d => !d.isTaken).map fun d =>
        (d.get "id").skeleton
  loads : a.statement.isA "ExpressionStatement" → ∀ target,
    Loader.classify (a.statement.get "expression") = some (.plain target) →
      (∃ module u, target.stringValue? = some module ∧ a.nodes = [u] ∧
        ImportsModule s module u) ∨ .about .dynamicStatement a.statement ∈ a.reports
  drops : a.statement.isA "ExpressionStatement" → ∀ loader,
    Loader.classify (a.statement.get "expression") = some loader →
      (∀ target, loader ≠ .plain target) →
        a.nodes = [(a.statement.annotate s.marker false).1] ∧
          a.reports = a.statement.buriedDiagnostics

section Run

variable (s : Surroundings)

/-- A declaration: commenting what lies below it does not change what its declarators ask for. -/
theorem complete_declaration {t : Tree} (isDeclaration : t.isA "VariableDeclaration")
    (p : Progress) :
    let result := declaration s (t.annotate s.marker false).1 p
    ∃ own, result.2.diagnostics = p.diagnostics ++ own ∧
      Account.Complete s ⟨t, result.1, t.buriedDiagnostics ++ own⟩ := by
  have noExpression := Tree.isA_eq_false isDeclaration (show _ ≠ "ExpressionStatement" by decide)
  have commented := Tree.declarations_annotate s.marker false isDeclaration
  obtain ⟨own, added, left, answers⟩ :=
    declaration_answers (s := s) (t := (t.annotate s.marker false).1) p
  rw [commented] at left answers
  refine ⟨own, added, fun _ d held loader called => ?_, fun _ => ?_,
    fun isExpression => by simp [noExpression] at isExpression,
    fun isExpression => by simp [noExpression] at isExpression⟩
  · -- Comments change neither skeleton nor places, so what a declarator asks for is what it asks
    -- for with comments.
    have init : (d.get "init").skeleton = ((d.annotate s.marker true).1.get "init").skeleton := by
      rw [← Tree.get_skeleton, ← Tree.get_skeleton, Tree.skeleton_annotate]
    obtain ⟨other, known, shape⟩ := Loader.classify_congr init called
    have answer := answers _ (List.mem_map.mpr ⟨d, held, rfl⟩) other known
    refine (answer.congr (Tree.skeleton_annotate ..) (Tree.bare_annotate ..) ?_).mono
      (List.subset_append_right _ _)
    rw [← Loader.module?_skeleton, shape, Loader.module?_skeleton]
  · have taken (d : Tree) : (d.annotate s.marker true).1.isTaken = d.isTaken := by
      rw [← Tree.isTaken_skeleton, Tree.skeleton_annotate, Tree.isTaken_skeleton]
    have id (d : Tree) :
        ((d.annotate s.marker true).1.get "id").skeleton = (d.get "id").skeleton := by
      rw [← Tree.get_skeleton, Tree.skeleton_annotate, Tree.get_skeleton]
    rw [left, List.filter_map, List.map_map, List.map_map]
    simp only [Function.comp_def, taken, id]

/-- An expression statement: the same holds for its expression. -/
theorem complete_expression {t : Tree} (isExpression : t.isA "ExpressionStatement")
    (p : Progress) :
    let result := expressionStatement s (t.annotate s.marker false).1 p
    ∃ own, result.2.diagnostics = p.diagnostics ++ own ∧
      Account.Complete s ⟨t, result.1, t.buriedDiagnostics ++ own⟩ := by
  have noDeclaration := Tree.isA_eq_false isExpression (show _ ≠ "VariableDeclaration" by decide)
  have expression : (t.get "expression").skeleton =
      ((t.annotate s.marker false).1.get "expression").skeleton := by
    rw [← Tree.get_skeleton, ← Tree.get_skeleton, Tree.skeleton_annotate]
  obtain ⟨own, added, loads, drops⟩ :=
    expressionStatement_answers (s := s) (t := (t.annotate s.marker false).1) p
  refine ⟨own, added, fun isDeclaration => by simp [noDeclaration] at isDeclaration,
    fun isDeclaration => by simp [noDeclaration] at isDeclaration, fun _ target called => ?_,
    fun _ loader called indirect => ?_⟩
  · -- With comments the call is of the same shape, and names the same module.
    obtain ⟨other, known, shape⟩ := Loader.classify_congr expression called
    cases other with
    | plain argument =>
      have same : argument.skeleton = target.skeleton := Loader.plain.inj shape
      rcases loads argument known with ⟨module, u, named, only, imports⟩ | told
      · refine .inl ⟨module, u, ?_, only, imports⟩
        rw [← Tree.stringValue?_skeleton, ← same, Tree.stringValue?_skeleton, named]
      · refine .inr (List.mem_append_right _ ?_)
        rwa [← Tree.about_bare, Tree.bare_annotate, Tree.about_bare] at told
    | factory target arguments => cases shape
    | member target property => cases shape
  · obtain ⟨other, known, shape⟩ := Loader.classify_congr expression called
    obtain ⟨stays, none⟩ := drops other known fun argument same => by
      subst same
      cases loader with
      | plain target => exact indirect target rfl
      | factory target arguments => cases shape
      | member target property => cases shape
    exact ⟨stays, by rw [none, List.append_nil]⟩

/-- One statement: what lies below it is reported first. -/
theorem account_step (t : Tree) (p : Progress) :
    ∃ reports, (step s t p).2.2.diagnostics = p.diagnostics ++ reports ∧
      Account.Complete s ⟨t, (step s t p).1, reports⟩ := by
  -- Mentions and buried calls are noted before the statement itself is dealt with.
  let noted := (p.mention t.mentions).reportAll t.buriedDiagnostics
  have before : noted.diagnostics = p.diagnostics ++ t.buriedDiagnostics := rfl
  change ∃ reports, (statement s (t.annotate s.marker false).1 noted).2.diagnostics = _ ∧
    Account.Complete s ⟨t, (statement s (t.annotate s.marker false).1 noted).1, reports⟩
  rw [statement_eq, Tree.isA_annotate, Tree.isA_annotate]
  split
  · obtain ⟨own, added, complete⟩ := complete_declaration s ‹_› noted
    exact ⟨_, by rw [added, before, List.append_assoc], complete⟩
  · rename_i noDeclaration
    split
    · obtain ⟨own, added, complete⟩ := complete_expression s ‹_› noted
      exact ⟨_, by rw [added, before, List.append_assoc], complete⟩
    · rename_i noExpression
      exact ⟨t.buriedDiagnostics, before, fun found => absurd found noDeclaration,
        fun found => absurd found noDeclaration, fun found => absurd found noExpression,
        fun found => absurd found noExpression⟩

/-- All statements, one after the other. -/
theorem accounts_steps (ts : List Tree) (p : Progress) :
    ∃ accounts : List Account, accounts.map Account.statement = ts ∧
      accounts.flatMap Account.nodes = (steps s ts p).1 ∧
      (steps s ts p).2.2.diagnostics = p.diagnostics ++ accounts.flatMap Account.reports ∧
      ∀ a ∈ accounts, a.Complete s := by
  -- Statements and reports both come in the order of the program.
  induction ts generalizing p with
  | nil => exact ⟨[], rfl, rfl, (List.append_nil _).symm, by simp⟩
  | cons t rest ih =>
    obtain ⟨reports, added, complete⟩ := account_step s t p
    obtain ⟨accounts, statements, nodes, more, others⟩ := ih (step s t p).2.2
    refine ⟨⟨t, (step s t p).1, reports⟩ :: accounts, ?_, ?_, ?_, ?_⟩
    · rw [List.map_cons, statements]
    · rw [List.flatMap_cons, nodes]
      rfl
    · simp only [steps]
      rw [more, added, List.flatMap_cons, List.append_assoc]
    · exact List.forall_mem_cons.mpr ⟨complete, others⟩

end Run

end Lift

/-- Every call of `require` at the top level of a program is answered for: by an import or by a
report, unless it is the whole of a statement that calls or reads what it loads. -/
theorem calls_accounted (s : Surroundings) {program : Tree} (isProgram : program.isA "Program") :
    (program.Ranged → ∃ lifted, lift s program = .ok lifted) ∧
    ∀ lifted, lift s program = .ok lifted → ∃ accounts : List Lift.Account,
      accounts.map Lift.Account.statement = (program.get "body").items ∧
      (lifted.program.get "body").items =
        Lift.opening (Lift.finalNames s program) (Lift.newBody s program) ++
          accounts.flatMap Lift.Account.nodes ∧
      lifted.diagnostics = accounts.flatMap Lift.Account.reports ∧
      ∀ a ∈ accounts, a.Complete s := by
  -- There is an account for each statement, and the new body and all reports are made of them.
  refine ⟨Lift.exists_liftWith _ s isProgram, fun lifted known => ?_⟩
  obtain ⟨diagnostics, items⟩ := Lift.body_of_liftWith known
  obtain ⟨accounts, statements, nodes, reports, complete⟩ :=
    Lift.accounts_steps s (program.get "body").items (.ofLedger (Scope.analyze program))
  refine ⟨accounts, statements, ?_, ?_, complete⟩
  · rw [items, nodes]
    rfl
  · rw [diagnostics, reports]
    rfl

/-- A declaration of a module, of what a factory returns and of a module named by a variable, before
a statement that loads. -/
theorem calls_accounted_mixed :
    let load (target : Tree) : Tree := .call (.identifier "require") [target]
    let declaration : Tree := .variableDeclaration (.text "var")
      [.variableDeclarator (.identifier "a") (load (.stringLiteral '"' "x")),
        .variableDeclarator (.identifier "b") (.call (load (.stringLiteral '"' "y")) []),
        .variableDeclarator (.identifier "c") (load (.identifier "z"))]
    let expression : Tree :=
      .synthetic "ExpressionStatement" [("expression", load (.stringLiteral '"' "w"))]
    let program : Tree := .synthetic "Program"
      [("body", .list [declaration.readAt ⟨0, 56⟩, expression.readAt ⟨57, 70⟩])]
    let s : Surroundings := { isFile := fun _ => false }
    program.isA "Program" ∧ program.Ranged ∧
      ∃ (lifted : Lifted) (accounts : List Lift.Account), lift s program = .ok lifted ∧
        accounts.map Lift.Account.statement = (program.get "body").items ∧
        (lifted.program.get "body").items =
          Lift.opening (Lift.finalNames s program) (Lift.newBody s program) ++
            accounts.flatMap Lift.Account.nodes ∧
        lifted.diagnostics = accounts.flatMap Lift.Account.reports ∧
        ∀ a ∈ accounts, a.Complete s := by
  intro load declaration expression program s
  -- All four statements were read, so the program can be lifted.
  have ranged : program.Ranged := by decide
  obtain ⟨lifts, each⟩ := @calls_accounted s program rfl
  obtain ⟨lifted, known⟩ := lifts ranged
  obtain ⟨accounts, complete⟩ := each lifted known
  exact ⟨rfl, ranged, lifted, accounts, known, complete⟩

/-- A statement that calls what it loads is neither replaced by an import nor reported. -/
theorem factory_statement_silent :
    let call : Tree := .call (.call (.identifier "require") [.stringLiteral '"' "x"]) []
    let program : Tree := .synthetic "Program" [("body", .list
      [.synthetic "ExpressionStatement" [("expression", call)]])]
    (Loader.classify call).isSome ∧
      (lift { isFile := fun _ => false } program).toOption.map (fun lifted =>
        ((lifted.program.get "body").items.map Tree.kind?, lifted.diagnostics)) =
        some ([some "ExpressionStatement"], []) := by
  decide +kernel

end ModuleLift
