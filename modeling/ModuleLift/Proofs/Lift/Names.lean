import ModuleLift.Proofs.Lift.Layout
import ModuleLift.Proofs.Lift.Report
import ModuleLift.Proofs.Polyfill
import ModuleLift.Proofs.Tree.Shape

/-! The names in use while a program is lifted, and the new ones chosen on the way. -/

namespace ModuleLift

namespace Tree

/-- The names that a top-level statement binds to what factories return, in order. -/
def factoryNames (t : Tree) : List Text :=
  if t.isA "VariableDeclaration" then
    ((t.get "declarations").items.filter takesFactory).map fun d => (d.get "id").name
  else []

/-- A change of marks leaves the fields. -/
@[simp] theorem get_mapMark (t : Tree) (change : Mark → Mark) (key : String) :
    (t.mapMark change).get key = t.get key := by
  cases t <;> rfl

/-- A change of marks leaves the kind. -/
@[simp] theorem isA_mapMark (t : Tree) (change : Mark → Mark) (kind : String) :
    (t.mapMark change).isA kind = t.isA kind := by
  cases t <;> rfl

/-- Where a statement stands does not tell which names it binds. -/
theorem boundNames_anchor (t : Tree) (region : Region) :
    (t.anchor region).boundNames = t.boundNames := by
  simp [boundNames, anchor]

/-- A factory is called where no other call of `require` is, and its callee is one. -/
theorem any_isFactory (t : Tree) :
    (Loader.classify t).any Loader.isFactory =
      (t.isA "CallExpression" && (Loader.requireArgument? t).isNone &&
        (Loader.staticArgument? (t.get "callee")).isSome) := by
  rw [Loader.classify]
  cases isCall : t.isA "CallExpression" with
  | true =>
    cases Loader.requireArgument? t with
    | some argument => rfl
    | none => cases Loader.staticArgument? (t.get "callee") <;> rfl
  | false =>
    -- A member of a module is no factory.
    simp only [Bool.false_eq_true, if_false, Bool.false_and]
    split
    · split
      · cases Loader.staticArgument? (t.get "object") <;> rfl
      · rfl
    · rfl

/-- Which declarators take a factory is told by the bare tree. -/
@[simp] theorem takesFactory_bare (d : Tree) : d.bare.takesFactory = d.takesFactory := by
  -- All that is asked of the initializer and of the target is asked of bare trees too.
  simp [takesFactory, any_isFactory, requireArgument?_bare, Loader.staticArgument?,
    Option.filter_map, Function.comp_def]

/-- Which names are bound to what factories return is told by the bare tree. -/
theorem factoryNames_bare (t : Tree) : t.bare.factoryNames = t.factoryNames := by
  -- Declarators are selected and named alike in both trees.
  simp only [factoryNames, isA_bare, get_bare, items_bare, List.filter_map, List.map_map,
    Function.comp_def, takesFactory_bare, name_bare]

end Tree

namespace Polyfill

/-- The names in use once fresh ones were chosen for some bases. -/
def takeFresh (p : Polyfill) (bases : List Text) : Polyfill :=
  { p with bound := p.bound ++ freshNames p.bound bases }

/-- Without bases no name is taken. -/
@[simp] theorem takeFresh_nil (p : Polyfill) : p.takeFresh [] = p := by
  simp [takeFresh, freshNames]

/-- Choosing more names goes on from where the earlier choices ended. -/
theorem takeFresh_append (p : Polyfill) (first second : List Text) :
    p.takeFresh (first ++ second) = (p.takeFresh first).takeFresh second := by
  simp [takeFresh, freshNames_append]

/-- Which names are used and which are free are noted apart from each other. -/
theorem record_takeFresh (p : Polyfill) (bases : List Text) (name : Text) :
    (p.takeFresh bases).record name = (p.record name).takeFresh bases := by
  -- Noting a mention sets one of two flags, or nothing.
  simp only [record]
  split
  · rfl
  · split <;> rfl

/-- Mentions can be noted before or after names are taken. -/
theorem foldl_record_takeFresh (p : Polyfill) (bases names : List Text) :
    names.foldl record (p.takeFresh bases) = (names.foldl record p).takeFresh bases := by
  -- Each mention by itself can.
  induction names generalizing p with
  | nil => rfl
  | cons name rest ih => rw [List.foldl_cons, record_takeFresh, ih, List.foldl_cons]

/-- Noting names changes nothing but whether the two names are used. -/
theorem foldl_record_eq (p : Polyfill) (names : List Text) :
    names.foldl record p = { p with
      dirnameUsed := p.dirnameUsed || names.contains dirnameName
      filenameUsed := p.filenameUsed || names.contains filenameName } := by
  have apart : filenameName ≠ dirnameName := by decide
  induction names generalizing p with
  | nil => simp
  | cons name rest ih =>
    rw [List.foldl_cons, ih, record]
    -- A name is noted as one of the two, or not at all.
    split
    · rename_i directory
      simp [directory, apart]
    · rename_i noDirectory
      split
      · rename_i file
        simp [file, apart.symm]
      · rename_i noFile
        simp [Ne.symm noDirectory, Ne.symm noFile]

end Polyfill

namespace Lift

variable (s : Surroundings)

/-- What the names of factories are made from. -/
def factoryBases (names : List Text) : List Text := names.map (· ++ s.factorySuffix)

/-- The first declarator gives the first base, if it takes a factory. -/
theorem factoryBases_cons (d : Tree) (rest : List Tree) :
    factoryBases s (((d :: rest).filter Tree.takesFactory).map fun d => (d.get "id").name) =
      (if d.takesFactory then [(d.get "id").name ++ s.factorySuffix] else []) ++
        factoryBases s ((rest.filter Tree.takesFactory).map fun d => (d.get "id").name) := by
  -- A declarator that takes no factory adds no base.
  rw [List.filter_cons]
  split <;> rfl

/-- A declarator takes a name if it binds one to what a factory returns. -/
theorem names_declarator (d : Tree) (p : Progress) :
    (declarator s d p).2.names =
      p.names.takeFresh
        (if d.takesFactory then [(d.get "id").name ++ s.factorySuffix] else []) := by
  -- Each way to deal with a declarator says whether it takes a factory.
  have step := declarator_step s d p
  generalize declarator s d p = result at step ⊢
  cases step with
  | uncalled uncalled =>
    simp [Tree.takesFactory_of_not_isLowered (Tree.isLowered_of_uncalled uncalled)]
  | dynamic called unnamed =>
    simp [Tree.takesFactory_of_not_isLowered (Tree.isLowered_of_unnamed called unnamed),
      Progress.report]
  | refused called named unfit =>
    simp [Tree.takesFactory_of_not_isLowered unfit, Progress.report]
  | imported called named fit =>
    simpa [Tree.takesFactory_of_isTaken fit] using names_importSource ..
  | @factored target _ module _ called named fit fresh =>
    simp only [fit, if_true, fresh, Progress.take, names_importSource s target module p]
    rfl

/-- The declarators take names one after the other. -/
theorem names_declarators (ds : List Tree) (p : Progress) :
    (declarators s ds p).2.names =
      p.names.takeFresh
        (factoryBases s ((ds.filter Tree.takesFactory).map fun d => (d.get "id").name)) := by
  -- The names taken for the first are taken when the others are dealt with.
  induction ds generalizing p with
  | nil => simp [declarators, factoryBases]
  | cons d rest ih =>
    simp only [declarators]
    rw [ih, names_declarator, ← Polyfill.takeFresh_append, factoryBases_cons]

/-- No expression statement needs a name that is new. -/
theorem names_expressionStatement (t : Tree) (p : Progress) :
    (expressionStatement s t p).2.names = p.names := by
  -- Only an import goes to the record at all, and it takes no name.
  have step := expressionStatement_step s t p
  generalize expressionStatement s t p = result at step ⊢
  cases step with
  | loaded => exact names_importSource ..
  | _ => rfl

/-- A top-level statement takes a name for each factory in it. -/
theorem names_statement (t : Tree) (p : Progress) :
    (statement s t p).2.names = p.names.takeFresh (factoryBases s t.factoryNames) := by
  -- Factories are called in declarations only.
  rw [statement_eq, Tree.factoryNames]
  split
  · exact names_declarators ..
  · rw [factoryBases, List.map_nil, Polyfill.takeFresh_nil]
    split
    · exact names_expressionStatement ..
    · rfl

/-- Commenting does not change which names are bound to what factories return. -/
theorem factoryNames_annotate (marker : Text) (t : Tree) :
    (t.annotate marker false).1.factoryNames = t.factoryNames := by
  rw [← Tree.factoryNames_bare, Tree.bare_annotate, Tree.factoryNames_bare]

/-- One statement: what it mentions is noted, and its factories take their names. -/
theorem names_step (t : Tree) (p : Progress) :
    (step s t p).2.2.names =
      (t.mentions.foldl Polyfill.record p.names).takeFresh (factoryBases s t.factoryNames) := by
  -- Comments do not change which factories are called.
  simp only [step]
  rw [names_statement, factoryNames_annotate]
  rfl

/-- What a statement mentions and what is reported of it takes no name. -/
theorem bound_noted (t : Tree) (p : Progress) :
    ((p.mention t.mentions).reportAll t.buriedDiagnostics).names.bound = p.names.bound := by
  simp [Progress.reportAll, Progress.mention, Polyfill.foldl_record_eq]

/-- A statement takes a name for each factory in it. -/
theorem bound_step (t : Tree) (p : Progress) :
    (step s t p).2.2.names.bound =
      p.names.bound ++ freshNames p.names.bound (factoryBases s t.factoryNames) := by
  -- Noting mentions binds no names.
  rw [names_step, Polyfill.foldl_record_eq]
  rfl

/-- The names in use after all statements: what they mention is noted, and their factories took
their names in order. -/
theorem names_steps (ts : List Tree) (p : Progress) :
    (steps s ts p).2.2.names =
      ((ts.flatMap Tree.mentions).foldl Polyfill.record p.names).takeFresh
        (factoryBases s (ts.flatMap Tree.factoryNames)) := by
  induction ts generalizing p with
  | nil => simp [steps, factoryBases]
  | cons t rest ih =>
    -- Noting a mention and taking a name do not disturb each other, so both collect.
    simp only [steps]
    rw [ih, names_step, Polyfill.foldl_record_takeFresh, ← Polyfill.takeFresh_append,
      List.flatMap_cons, List.foldl_append, List.flatMap_cons, factoryBases, factoryBases,
      factoryBases, List.map_append]

/-- A fate that imports a factory and calls it for a name. -/
def Fate.Introduces (name factory : Text) (fate : Fate) : Prop :=
  ∃ source id arguments, id.name = name ∧
    fate = .factored (.importDefault factory source)
      (.variableDeclarator id (.call (.identifier factory) arguments))

/-- A body in which a factory is imported, and called for a name that is declared. -/
structure CallsFactory (body : List Tree) (name factory : Text) : Prop where
  imported : ∃ t ∈ body, t.isA "ImportDeclaration" ∧ t.boundNames = [factory]
  called : ∃ t ∈ body, t.isA "VariableDeclaration" ∧ ∃ d ∈ (t.get "declarations").items,
    (d.get "id").name = name ∧ (d.get "init").isA "CallExpression" ∧
      ((d.get "init").get "callee").isNamed factory

/-- A factory in a part of a body is one in the body. -/
theorem CallsFactory.mono {part body : List Tree} {name factory : Text}
    (calls : CallsFactory part name factory) (within : part ⊆ body) :
    CallsFactory body name factory := by
  -- Both statements are found in the larger list.
  obtain ⟨⟨t, held, imports⟩, u, kept, declares⟩ := calls
  exact ⟨⟨t, within held, imports⟩, u, within kept, declares⟩

/-- The factory of a declarator is imported under a fresh name. -/
theorem declarator_introduces {d : Tree} (takes : d.takesFactory) (p : Progress) :
    (declarator s d p).1.Introduces (d.get "id").name
      (freshName ((d.get "id").name ++ s.factorySuffix) p.names.bound) := by
  -- The step that a factory leads to tells the import and the call.
  obtain ⟨source, becomes⟩ := declarator_factored s takes p
  exact ⟨source, _, _, rfl, becomes⟩

/-- The factories of several declarators are imported under fresh names, one after the other. -/
theorem declarators_introduce (ds : List Tree) (p : Progress) :
    let names := (ds.filter Tree.takesFactory).map fun d => (d.get "id").name
    List.Forall₂
      (fun name factory => ∃ fate ∈ (declarators s ds p).1, fate.Introduces name factory)
      names (freshNames p.names.bound (factoryBases s names)) := by
  induction ds generalizing p with
  | nil => exact .nil
  | cons d rest ih =>
    -- Later declarators choose their names with the one of this declarator taken.
    have later := ih (declarator s d p).2
    rw [names_declarator] at later
    have known := later.imp fun name factory ⟨fate, held, introduces⟩ =>
      (⟨fate, List.mem_cons_of_mem (declarator s d p).1 held, introduces⟩ :
        ∃ fate ∈ (declarators s (d :: rest) p).1, fate.Introduces name factory)
    intro names
    cases takes : d.takesFactory with
    | true =>
      have here : names = (d.get "id").name ::
          (rest.filter Tree.takesFactory).map fun d => (d.get "id").name := by
        simp [names, takes]
      rw [here]
      rw [takes] at known
      exact .cons ⟨_, List.mem_cons_self, declarator_introduces s takes p⟩ known
    | false =>
      have here : names = (rest.filter Tree.takesFactory).map fun d => (d.get "id").name := by
        simp [names, takes]
      rw [here]
      rw [takes] at known
      simpa using known

/-- Every statement that is given is anchored somewhere. -/
theorem exists_anchor_mem (region : Region) {added : List Tree} {t : Tree} (held : t ∈ added) :
    ∃ place, t.anchor place ∈ anchorAll region added := by
  -- The recursion anchors one statement after the other.
  fun_induction anchorAll region added with
  | case1 => simp at held
  | case2 last => exact ⟨region, by simp_all⟩
  | case3 first rest _ ih =>
    rcases List.mem_cons.mp held with rfl | later
    · exact ⟨_, List.mem_cons_self⟩
    · obtain ⟨place, found⟩ := ih later
      exact ⟨place, List.mem_cons_of_mem _ found⟩

/-- What is left of a declaration declares what was not imported. -/
theorem exists_remainder (marker : Text) (t : Tree) {fates : List Fate} {d : Tree}
    (left : d ∈ fates.filterMap Fate.declarator?) :
    ∃ kept ∈ remainder marker t fates, kept.isA "VariableDeclaration" ∧
      (kept.get "declarations").items = fates.filterMap Fate.declarator? := by
  -- A remainder is made, since there is a declarator to be left.
  have some : fates.filterMap Fate.declarator? ≠ [] := List.ne_nil_of_mem left
  simp only [remainder]
  rw [if_neg (by simpa using some)]
  refine ⟨_, List.mem_singleton_self _, ?_⟩
  split
  · exact ⟨rfl, rfl⟩
  · exact ⟨rfl, rfl⟩

/-- A declaration with a factory becomes an import of it and a declaration that calls it. -/
theorem callsFactory_assemble {marker : Text} {t : Tree} {fates : List Fate} {fate : Fate}
    {name factory : Text} (held : fate ∈ fates) (introduces : fate.Introduces name factory) :
    CallsFactory (assemble marker t fates) name factory := by
  obtain ⟨source, id, arguments, bound, rfl⟩ := introduces
  have imported : Tree.importDefault factory source ∈ fates.filterMap Fate.statement? :=
    List.mem_filterMap.mpr ⟨_, held, rfl⟩
  have left : Tree.variableDeclarator id (.call (.identifier factory) arguments) ∈
      fates.filterMap Fate.declarator? := List.mem_filterMap.mpr ⟨_, held, rfl⟩
  -- The import comes among the imports, and the declarator that is left in the declaration after
  -- them.
  rw [assemble_eq (List.ne_nil_of_mem imported)]
  constructor
  · obtain ⟨place, found⟩ := exists_anchor_mem t.readRegion
      (List.mem_append_left (remainder marker t fates) imported)
    refine ⟨_, found, rfl, ?_⟩
    rw [Tree.boundNames_anchor]
    rfl
  · obtain ⟨kept, stays, isDeclaration, declares⟩ := exists_remainder marker t left
    obtain ⟨place, found⟩ := exists_anchor_mem t.readRegion
      (List.mem_append_right (fates.filterMap Fate.statement?) stays)
    refine ⟨_, found, by simpa [Tree.anchor] using isDeclaration,
      .variableDeclarator id (.call (.identifier factory) arguments), ?_, bound, rfl, ?_⟩
    · simpa only [Tree.anchor, Tree.get_mapMark, declares] using left
    · exact beq_self_eq_true _

/-- The factories of a top-level statement are imported and called in what it becomes. -/
theorem statement_callsFactories (t : Tree) (p : Progress) :
    List.Forall₂ (CallsFactory (statement s t p).1) t.factoryNames
      (freshNames p.names.bound (factoryBases s t.factoryNames)) := by
  -- A declaration is assembled from the fates of its declarators; other statements call no
  -- factories.
  rw [statement_eq, Tree.factoryNames]
  split
  · refine (declarators_introduce s (t.get "declarations").items p).imp ?_
    rintro name factory ⟨fate, held, introduces⟩
    exact callsFactory_assemble held introduces
  · exact .nil

/-- The factories of one statement are imported and called in what it becomes. -/
theorem step_callsFactories (t : Tree) (p : Progress) :
    List.Forall₂ (CallsFactory (step s t p).1) t.factoryNames
      (freshNames p.names.bound (factoryBases s t.factoryNames)) := by
  -- Commenting and noting change neither the factories nor the names taken.
  have calls := statement_callsFactories s (t.annotate s.marker false).1
    ((p.mention t.mentions).reportAll t.buriedDiagnostics)
  rw [factoryNames_annotate, bound_noted] at calls
  exact calls

/-- The factories of all statements are imported and called in the new body. -/
theorem steps_callsFactories (ts : List Tree) (p : Progress) :
    let names := ts.flatMap Tree.factoryNames
    List.Forall₂ (CallsFactory (steps s ts p).1) names
      (freshNames p.names.bound (factoryBases s names)) := by
  induction ts generalizing p with
  | nil => exact .nil
  | cons t rest ih =>
    -- A later factory is named apart from those of the statements before it.
    have later := ih (step s t p).2.2
    rw [bound_step] at later
    intro names
    simp only [names, List.flatMap_cons]
    rw [factoryBases, List.map_append, freshNames_append]
    refine List.rel_append ?_ ?_
    · exact (step_callsFactories s t p).imp fun _ _ calls =>
        calls.mono (List.subset_append_left _ _)
    · exact later.imp fun _ _ calls => calls.mono (List.subset_append_right _ _)

section Program

variable (program : Tree)

/-- The statements of a program once they are lifted. -/
def newBody : List Tree :=
  (steps s (program.get "body").items (.ofLedger (Scope.analyze program))).1

/-- The names in use once all statements of a program are lifted. -/
def finalNames : Polyfill :=
  (steps s (program.get "body").items (.ofLedger (Scope.analyze program))).2.2.names

/-- The names that a program binds to what factories return, in order. -/
def factoryUses : List Text := (program.get "body").items.flatMap Tree.factoryNames

/-- The names under which the factories are imported: one after the other, each is made from the
name it is called for and is fresh in the whole program. -/
def factories : List Text :=
  freshNames (Scope.analyze program).boundNames (factoryBases s (factoryUses program))

/-- What is in use in the end: the names bound in the program and those of factories, and the two
ambient names if they are mentioned. -/
theorem finalNames_eq :
    finalNames s program = {
      bound := (Scope.analyze program).boundNames ++ factories s program
      topLevel := (Scope.analyze program).topLevelNames
      dirnameUsed := ((program.get "body").items.flatMap Tree.mentions).contains dirnameName
      filenameUsed :=
        -- All mentions come together, and all names that were taken.
        ((program.get "body").items.flatMap Tree.mentions).contains filenameName } := by
  rw [finalNames, names_steps, Polyfill.foldl_record_eq]
  rfl

/-- A lifted program is a program, with the new body after the definitions put before it. -/
theorem program_of_lift {program : Tree} {lifted : Lifted} (known : lift s program = .ok lifted) :
    lifted.program.isA "Program" ∧ (lifted.program.get "body").isSeries ∧
      (lifted.program.get "body").items =
        opening (finalNames s program) (newBody s program) ++ newBody s program := by
  have isProgram : program.isA "Program" := by
    rw [lift, liftWith] at known
    split at known
    · assumption
    · cases known
  obtain rfl := eq_liftedOf _ s known
  refine ⟨?_, ?_, items_liftedOf _ s program⟩
  · cases program <;> exact isProgram
  · -- The new body is a list, and a program without a body gets none.
    rw [liftedOf, get_mapField]
    cases List.lookup "body" (Tree.fields _) <;> rfl

end Program

end Lift

/-- The helpers are imported under fresh names. -/
theorem Polyfill.helpers_sublist (p : Polyfill) :
    p.helpers.Sublist (freshNames p.bound ["fileURLToPath", "dirname"]) := by
  -- None, one or both of the helpers are imported.
  rw [helpers_eq]
  split
  · exact List.nil_sublist _
  · refine .cons_cons _ ?_
    split
    · exact List.Sublist.refl _
    · exact List.nil_sublist _

/-- The names chosen for factories, and after them for the helpers of the definitions put before the
body, are all distinct, and none of them is bound anywhere in the program. -/
theorem chosen_names_fresh {program : Tree} (isProgram : program.isA "Program")
    (s : Surroundings) :
    let names := Lift.finalNames s program
    let factories := Lift.factories s program
    (program.Ranged → ∃ lifted, lift s program = .ok lifted) ∧
    ∀ lifted, lift s program = .ok lifted →
      (lifted.program.get "body").items =
        Lift.opening names (Lift.newBody s program) ++ Lift.newBody s program ∧
      names.bound = (Scope.analyze program).boundNames ++ factories ∧
      List.Forall₂ (Lift.CallsFactory (Lift.newBody s program)) (Lift.factoryUses program)
        factories ∧
      (factories ++ names.helpers).Nodup ∧
      ∀ name ∈ factories ++ names.helpers, name ∉ (Scope.analyze program).boundNames := by
  intro names factories
  refine ⟨Lift.exists_liftWith _ s isProgram, fun lifted known => ?_⟩
  obtain ⟨_, _, items⟩ := Lift.program_of_lift s known
  have bound : names.bound = (Scope.analyze program).boundNames ++ factories := by
    simp only [names, Lift.finalNames_eq]
    rfl
  -- All names are chosen in one run: those of the helpers go on from those of the factories.
  have chosen := names.helpers_sublist.append_left factories
  simp only [bound, factories, Lift.factories, ← freshNames_append] at chosen
  refine ⟨items, bound, Lift.steps_callsFactories .., ?_, ?_⟩
  · exact chosen.nodup (freshNames_nodup _ _)
  · exact fun name held => not_mem_of_mem_freshNames (chosen.subset held)

/-- Two factories that are called for `a` and `_a` get names of their own, also without a suffix. -/
theorem chosen_names_fresh_unsuffixed :
    let init : Tree :=
      .call (.call (.identifier "require") [.stringLiteral '"' "x"]) [.identifier "_a"]
    let program : Tree := .synthetic "Program"
      [("body", .list [(Polyfill.constant "a" init).readAt ⟨0, 29⟩,
        (Polyfill.constant "_a" init).readAt ⟨30, 60⟩])]
    let s : Surroundings := { isFile := fun _ => false, factorySuffix := "" }
    program.isA "Program" ∧ program.Ranged ∧ Lift.factoryUses program = ["a", "_a"] ∧
      ∃ lifted, lift s program = .ok lifted ∧ (Lift.factories s program).Nodup ∧
        ∀ name ∈ Lift.factories s program, name ∉ (Scope.analyze program).boundNames := by
  intro init program s
  -- One underscore before `a` is taken already, so another name has to be found.
  have ranged : program.Ranged := by decide
  obtain ⟨lifts, each⟩ := @chosen_names_fresh program rfl s
  obtain ⟨lifted, known⟩ := lifts ranged
  obtain ⟨_, _, _, distinct, free⟩ := each lifted known
  exact ⟨rfl, ranged, rfl, lifted, known, distinct.of_append_left,
    fun name held => free name (List.mem_append_left _ held)⟩

end ModuleLift
