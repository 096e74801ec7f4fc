import ModuleLift.Proofs.Lift.Account
import ModuleLift.Proofs.Lift.Mention

/-! Which names a lifted program declares twice: an import may not share its name with another
declaration, while a `var` may. -/

namespace ModuleLift

open Emission (ImportsName)

open scoped List

namespace Tree

/-- The names that imports take over from the declarators of a statement. -/
def takenNames (t : Tree) : List Text :=
  if t.isA "VariableDeclaration" then
    ((t.get "declarations").items.filter isTaken).flatMap fun d => (d.get "id").patternNames
  else []

/-- The local names of a statement that is an import. -/
def importNames (t : Tree) : List Text := if t.isA "ImportDeclaration" then t.localNames else []

/-- Statements that share a scope: a name declared by `let`, `const`, `class` or an import is
declared once. -/
def Unambiguous (statements : List Tree) : Prop :=
  ∀ t ∈ statements, ∀ name ∈ t.unexported.ownLexicals, (bodyNames statements).count name = 1

instance (statements : List Tree) : Decidable (Unambiguous statements) :=
  inferInstanceAs (Decidable (∀ t ∈ statements, _))

/-- The names taken over from a declaration are told by the skeleton. -/
theorem takenNames_skeleton (t : Tree) : t.skeleton.takenNames = t.takenNames := by
  simp [takenNames, List.filter_map, List.flatMap_map, Function.comp_def]

/-- Comments do not change which names are taken over. -/
theorem takenNames_annotate (marker : Text) (nested : Bool) (t : Tree) :
    (t.annotate marker nested).1.takenNames = t.takenNames := by
  rw [← takenNames_skeleton, skeleton_annotate, takenNames_skeleton]

/-- A place does not change which names an import binds. -/
@[simp] theorem importNames_anchor (t : Tree) (region : Region) :
    (t.anchor region).importNames = t.importNames := by
  -- The kind stays, and so do the specifiers.
  simp only [importNames, localNames_anchor]
  rw [anchor, isA_mapMark]

/-- An import that is put in declares its local names. -/
theorem declaredNames_importFrom {specifiers : List Tree} {source : Tree}
    (names : ∀ specifier ∈ specifiers, ImportsName specifier) (plain : source.varNames = []) :
    (importFrom specifiers source).declaredNames = (importFrom specifiers source).localNames := by
  -- Neither the specifiers nor the source hold a `var`.
  have specified : specifiers.flatMap varNames = [] := by
    refine List.flatMap_eq_nil_iff.mpr fun specifier held => ?_
    cases names specifier held <;> rfl
  have fields : (importFrom specifiers source).varNames = [] := by
    rw [importFrom, varNames_synthetic rfl (by decide)]
    simp [fieldVars, isNoteKey, varNames_list, specified, plain]
  rw [declaredNames, fields]
  exact List.append_nil _

end Tree

namespace Lift

variable (s : Surroundings)

section Declarators

/-- The names that the import made for a declarator binds. -/
def Fate.imports (fate : Fate) : List Text := fate.statement?.toList.flatMap Tree.localNames

variable {s} {bound : List Text} {d : Tree} {fate : Fate} {own : List Diagnostic}

/-- An import binds the names taken over, or the name of a factory. -/
theorem Settles.imports_eq (settled : Settles s bound d fate own) :
    fate.imports = (if d.isTaken then (d.get "id").patternNames else []) ++
      if d.takesFactory then [freshName ((d.get "id").name ++ s.factorySuffix) bound] else [] := by
  have lowered := settled.isSome_statement
  cases settled with
  | taken _ called named fit names specifies binds =>
    have direct := Tree.takesFactory_of_isTaken fit
    simp [Fate.imports, Fate.statement?, fit, direct, binds]
  | factored _ called named fit names fresh =>
    -- A declarator is taken or has a factory, not both.
    have other : d.isTaken = false := by simp [Tree.isTaken, called]
    rw [other, fit, ← fresh]
    rfl
  | _ =>
    obtain ⟨notTaken, noFactory⟩ := Bool.or_eq_false_iff.mp lowered.symm
    simp [Fate.imports, Fate.statement?, notTaken, noFactory]

/-- The source of an import holds no declarations. -/
theorem NamesModule.varNames {target source : Tree} {module : Text}
    (names : NamesModule s target module source) (orderly : target.Orderly)
    (literal : target.stringValue?.isSome) : source.varNames = [] := by
  -- It is a literal, kept or put in.
  cases names with
  | written complete => exact Tree.varNames_stringLiteral orderly literal
  | completed quote => rfl

/-- The import made for a declarator declares nothing but its local names. -/
theorem Settles.declaredNames_eq (settled : Settles s bound d fate own) (orderly : d.Orderly)
    {u : Tree} (made : fate.statement? = some u) : u.declaredNames = u.localNames := by
  -- The source is a string literal, so no declaration can lie in it.
  have target {loader : Loader} (called : Loader.classify (d.get "init") = some loader) :
      loader.target.Orderly := fun part member =>
    orderly.get rfl part ((Loader.calls_of_classify called).target_subset member)
  cases settled with
  | taken _ called named fit names specifies binds =>
    cases made
    exact Tree.declaredNames_importFrom specifies
      (names.varNames (target called) (Option.isSome_of_eq_some named))
  | factored _ called named fit names fresh =>
    cases made
    exact Tree.declaredNames_importFrom (by simpa using .whole _)
      (names.varNames (target called) (Option.isSome_of_eq_some named))
  | _ => cases made

/-- What is left of a declarator holds no more declarations than the declarator. -/
theorem Settles.varNames_left (settled : Settles s bound d fate own)
    (isDeclarator : d.isA "VariableDeclarator") (none : d.varNames = []) {left : Tree}
    (kept : fate.declarator? = some left) : left.varNames = [] := by
  cases settled with
  | taken => cases kept
  | @factored target arguments _ _ factory _ called named fit names fresh =>
    cases kept
    have id : (d.get "id").varNames = [] := Tree.varNames_get_eq_nil none isDeclarator rfl rfl
    have init : (d.get "init").varNames = [] := Tree.varNames_get_eq_nil none isDeclarator rfl rfl
    -- What the factory is given was given to what is loaded.
    have given : arguments.flatMap Tree.varNames = [] := by
      cases Loader.calls_of_classify called with
      | factory isCall inner literal =>
        exact List.flatMap_eq_nil_iff.mpr fun argument held =>
          Tree.varNames_item_eq_nil (Tree.varNames_get_eq_nil init isCall rfl rfl) held
    have call : (Tree.call (.identifier factory) arguments).varNames = [] := by
      rw [Tree.call, Tree.varNames_synthetic rfl (by decide)]
      simp [Tree.fieldVars, Tree.varNames_list, given]
    rw [Tree.variableDeclarator, Tree.varNames_synthetic rfl (by decide)]
    simp [Tree.fieldVars, id, call]
  | _ => cases kept; exact none

/-- What belongs together can be put together. -/
theorem append_append_perm {α : Type} (first second third fourth : List α) :
    first ++ second ++ (third ++ fourth) ~ first ++ third ++ (second ++ fourth) := by
  -- The second list and the third change places.
  rw [List.append_assoc, List.append_assoc]
  exact (List.perm_append_comm_assoc second third fourth).append_left first

variable (s)

/-- The imports made for declarators bind the names taken over, and fresh names for factories. -/
theorem imports_declarators (ds : List Tree) (p : Progress) :
    (declarators s ds p).1.flatMap Fate.imports ~
      (ds.filter Tree.isTaken).flatMap (fun d => (d.get "id").patternNames) ++
        freshNames p.names.bound
          (factoryBases s ((ds.filter Tree.takesFactory).map fun d => (d.get "id").name)) := by
  induction ds generalizing p with
  | nil => exact .nil
  | cons d rest ih =>
    obtain ⟨own, _, settled⟩ := declarator_settles s d p
    have later := ih (declarator s d p).2
    -- Names taken by this declarator are taken for those after it.
    have chosen : freshNames p.names.bound
          (if d.takesFactory then [(d.get "id").name ++ s.factorySuffix] else []) =
        if d.takesFactory then [freshName ((d.get "id").name ++ s.factorySuffix) p.names.bound]
        else [] := by
      split <;> rfl
    have bound : (declarator s d p).2.names.bound = p.names.bound ++ freshNames p.names.bound
        (if d.takesFactory then [(d.get "id").name ++ s.factorySuffix] else []) := by
      rw [names_declarator]
      rfl
    rw [bound, chosen] at later
    have taken : ((d :: rest).filter Tree.isTaken).flatMap (fun d => (d.get "id").patternNames) =
        (if d.isTaken then (d.get "id").patternNames else []) ++
          (rest.filter Tree.isTaken).flatMap fun d => (d.get "id").patternNames := by
      rw [List.filter_cons]
      split <;> simp
    rw [factoryBases_cons, freshNames_append, taken]
    refine .trans ?_ (append_append_perm ..)
    simp only [declarators, List.flatMap_cons]
    rw [settled.imports_eq, chosen]
    exact later.append_left _

end Declarators

section Declaration

variable {t : Tree}

/-- What the imports made for declarators give is what their fates give. -/
theorem flatMap_statements {β : Type} (give : Tree → List β) (fates : List Fate) :
    (fates.filterMap Fate.statement?).flatMap give =
      fates.flatMap fun fate => fate.statement?.toList.flatMap give := by
  rw [List.filterMap_eq_flatMap_toList, List.flatMap_assoc]

/-- What remains of a declaration declares what no import took over. -/
theorem declaredNames_remainder {marker : Text} {fates : List Fate}
    (each : List.Forall₂ (fun d fate => ∃ bound own, Settles s bound d fate own)
      (t.get "declarations").items fates)
    (quiet : (fates.filterMap Fate.declarator?).flatMap Tree.varNames = [])
    (kind : (t.get "kind").varNames = []) :
    (remainder marker t fates).flatMap Tree.declaredNames =
      ((t.get "declarations").items.filter fun d => !d.isTaken).flatMap fun d =>
        (d.get "id").patternNames := by
  have left : (fates.filterMap Fate.declarator?).flatMap (fun d => (d.get "id").patternNames) =
      ((t.get "declarations").items.filter fun d => !d.isTaken).flatMap fun d =>
        (d.get "id").patternNames := by
    have ids := congrArg (List.flatMap Tree.patternNames) (map_left each)
    rwa [List.flatMap_map, List.flatMap_map] at ids
  -- One declaration with what is left declares what its patterns bind, for no declaration lies
  -- below it.
  have whole : (Tree.variableDeclaration (t.get "kind")
      (fates.filterMap Fate.declarator?)).declaredNames =
      (fates.filterMap Fate.declarator?).flatMap fun d => (d.get "id").patternNames := by
    refine Tree.declaredNames_declaration rfl ?_
    change ∀ field ∈ [("declarations", Tree.list (fates.filterMap Fate.declarator?)),
      ("kind", t.get "kind")], _
    simp [Tree.fieldVars, Tree.varNames_list, quiet, kind]
  rw [remainder, ← left]
  split
  · rename_i empty
    simp [List.isEmpty_iff.mp empty]
  · rw [List.flatMap_singleton, ← whole]
    split
    · exact Tree.declaredNames_mapMark ..
    · rfl

/-- What remains of a declaration is none of its imports. -/
theorem importNames_remainder (marker : Text) (t : Tree) (fates : List Fate) :
    (remainder marker t fates).flatMap Tree.importNames = [] := by
  -- It is a declaration, if anything remains.
  rw [remainder]
  split
  · rfl
  · rw [List.flatMap_singleton]
    split <;> rfl

/-- The imports among what a declaration becomes are those of its declarators. -/
theorem importNames_assemble (isDeclaration : t.isA "VariableDeclaration") {marker : Text}
    {fates : List Fate}
    (each : List.Forall₂ (fun d fate => ∃ bound own, Settles s bound d fate own)
      (t.get "declarations").items fates) :
    (assemble marker t fates).flatMap Tree.importNames = fates.flatMap Fate.imports := by
  rw [show fates.flatMap Fate.imports = _ from (flatMap_statements Tree.localNames fates).symm]
  -- A declaration from which nothing is imported stays, and is no import.
  by_cases none : fates.filterMap Fate.statement? = []
  · have noImport := Tree.isA_eq_false isDeclaration (show _ ≠ "ImportDeclaration" by decide)
    rw [assemble_whole none, none, List.flatMap_singleton]
    split
    · rw [Tree.importNames, Tree.comment, Tree.isA_mapMark, noImport]
      rfl
    · rw [Tree.importNames, noImport]
      rfl
  · rw [assemble_eq none, flatMap_anchorAll Tree.importNames_anchor, List.flatMap_append,
      importNames_remainder, List.append_nil]
    refine List.flatMap_congr fun u held => ?_
    obtain ⟨fate, member, made⟩ := List.mem_filterMap.mp held
    obtain ⟨d, _, bound, own, settled⟩ := exists_of_forall₂ each.flip member
    obtain ⟨specifiers, source, rfl⟩ := settled.import_eq made
    rfl

/-- The imports among what a declaration becomes bind the names taken over, and fresh names for
factories. -/
theorem importNames_declaration (isDeclaration : t.isA "VariableDeclaration") (p : Progress) :
    (declaration s t p).1.flatMap Tree.importNames ~
      t.takenNames ++ freshNames p.names.bound (factoryBases s t.factoryNames) := by
  -- The imports made for declarators bind those names, and the remainder binds none by an import.
  have made := imports_declarators s (t.get "declarations").items p
  rw [← importNames_assemble s isDeclaration (settled_declarators s _ p)] at made
  rw [Tree.takenNames, Tree.factoryNames, if_pos isDeclaration, if_pos isDeclaration]
  exact made

/-- A declaration becomes statements that declare the same names and those of its factories. -/
theorem declaredNames_declared (isDeclaration : t.isA "VariableDeclaration") (p : Progress)
    (quiet : ∀ field ∈ t.fields, Tree.fieldVars field.1 field.2 = []) (orderly : t.Orderly)
    (declared : ∀ d ∈ (t.get "declarations").items, d.isA "VariableDeclarator") :
    (declaration s t p).1.flatMap Tree.declaredNames ~
      t.declaredNames ++ freshNames p.names.bound (factoryBases s t.factoryNames) := by
  have each := settled_declarators s (t.get "declarations").items p
  have made := importNames_declaration s isDeclaration p
  simp only [declaration_eq] at made ⊢
  generalize (declarators s (t.get "declarations").items p).1 = fates at each made ⊢
  by_cases none : fates.filterMap Fate.statement? = []
  · -- Without an import there is no factory.
    have chosen : freshNames p.names.bound (factoryBases s t.factoryNames) = [] := by
      rw [importNames_assemble s isDeclaration each,
        show fates.flatMap Fate.imports = _ from (flatMap_statements Tree.localNames fates).symm,
        none] at made
      exact (List.append_eq_nil_iff.mp made.symm.eq_nil).2
    rw [chosen, List.append_nil, assemble_whole none, List.flatMap_singleton]
    split
    · exact .of_eq (Tree.declaredNames_mapMark ..)
    · exact .refl _
  · have field (key : String) (walked : Tree.isNoteKey key = false) :
        (t.get key).varNames = [] := by
      rcases t.get_eq_null_or_mem key with absent | held
      · rw [absent, Tree.varNames_null]
      · have value := quiet _ held
        rwa [Tree.fieldVars, walked] at value
    have left : (fates.filterMap Fate.declarator?).flatMap Tree.varNames = [] := by
      refine List.flatMap_eq_nil_iff.mpr fun u held => ?_
      obtain ⟨fate, member, kept⟩ := List.mem_filterMap.mp held
      obtain ⟨d, inside, bound, own, settled⟩ := exists_of_forall₂ each.flip member
      exact settled.varNames_left (declared d inside)
        (Tree.varNames_item_eq_nil (field "declarations" rfl) inside) kept
    have imports : (fates.filterMap Fate.statement?).flatMap Tree.declaredNames =
        (assemble s.marker t fates).flatMap Tree.importNames := by
      rw [importNames_assemble s isDeclaration each,
        show fates.flatMap Fate.imports = _ from (flatMap_statements Tree.localNames fates).symm]
      refine List.flatMap_congr fun u held => ?_
      obtain ⟨fate, member, kept⟩ := List.mem_filterMap.mp held
      obtain ⟨d, inside, bound, own, settled⟩ := exists_of_forall₂ each.flip member
      exact settled.declaredNames_eq (orderly.item rfl inside) kept
    have whole : t.declaredNames = _ := Tree.declaredNames_declaration isDeclaration quiet
    rw [assemble_eq none, flatMap_anchorAll fun u region => Tree.declaredNames_mapMark u _,
      List.flatMap_append, imports, declaredNames_remainder s each left (field "kind" rfl)]
    -- What was taken over and what was not make up the whole.
    rw [Tree.takenNames, if_pos isDeclaration] at made
    refine (made.append_right _).trans ?_
    rw [whole, Tree.declaratorNames, List.append_assoc]
    refine (List.perm_append_comm.append_left _).trans ?_
    rw [← List.append_assoc, ← List.flatMap_append]
    exact ((List.filter_append_perm _ _).flatMap_right _).append_right _

end Declaration

section Statements

variable {t : Tree}

/-- An expression statement holds the declarations of its expression. -/
theorem varNames_expression (orderly : t.Orderly) (isExpression : t.isA "ExpressionStatement") :
    t.varNames ~ (t.get "expression").varNames := by
  -- The expression is its only field that is entered.
  have held := Tree.varNames_held (orderly.self isExpression) isExpression rfl
  rw [Tree.ownVars_of_isA isExpression (by decide)] at held
  simpa using held

/-- `module.exports` holds no declarations. -/
theorem varNames_moduleExports (orderly : t.Orderly) (exported : isModuleExports t) :
    t.varNames = [] := by
  -- Both of its sides are names.
  rw [isModuleExports, Bool.and_eq_true, Bool.and_eq_true, Bool.and_eq_true] at exported
  obtain ⟨⟨⟨isMember, _⟩, object⟩, property⟩ := exported
  have held := Tree.varNames_held (orderly.self isMember) isMember rfl
  have objectName := Tree.varNames_name (orderly.get rfl) (Bool.and_eq_true_iff.mp object).1
  have propertyName := Tree.varNames_name (orderly.get rfl) (Bool.and_eq_true_iff.mp property).1
  rw [Tree.ownVars_of_isA isMember (by decide)] at held
  simpa [objectName, propertyName] using held

/-- An assignment to `module.exports` holds the declarations of its value. -/
theorem varNames_exportsValue {value : Tree} (orderly : t.Orderly)
    (isExpression : t.isA "ExpressionStatement") (assigned : exportsValue? t = some value) :
    t.varNames ~ value.varNames := by
  -- The left side of the assignment holds none.
  obtain ⟨isAssignment, exported, rfl⟩ := assigns_of_exportsValue assigned
  have expression : (t.get "expression").Orderly := orderly.get rfl
  have held := Tree.varNames_held (expression.self isAssignment) isAssignment rfl
  have left := varNames_moduleExports (expression.get rfl) exported
  rw [Tree.ownVars_of_isA isAssignment (by decide)] at held
  refine (varNames_expression orderly isExpression).trans ?_
  simpa [left] using held

/-- Exports of an object declare what lies in the object. -/
theorem declaredNames_exports (region : Region) {value : Tree}
    (object : value.isA "ObjectExpression") (pairs : List (Text × Text)) :
    (anchorAll region ((if pairs.isEmpty then [] else [.exportNamed pairs]) ++
      [.exportDefault value])).flatMap Tree.declaredNames = value.varNames := by
  -- A list of exports names what is declared elsewhere.
  have named : (Tree.exportNamed pairs).declaredNames = [] := by
    have specifiers : (pairs.map fun pair => Tree.synthetic "ExportSpecifier"
        [("local", .identifier pair.1), ("exported", .identifier pair.2)]).flatMap
          Tree.varNames = [] := by
      rw [List.flatMap_map]
      exact List.flatMap_eq_nil_iff.mpr fun pair _ => rfl
    have fields : (Tree.exportNamed pairs).varNames = [] := by
      rw [Tree.exportNamed, Tree.varNames_synthetic rfl (by decide)]
      simp [Tree.fieldVars, Tree.varNames_list, specifiers]
    rw [Tree.declaredNames, fields]
    rfl
  -- An object is no declaration, so the default export declares only what lies in it.
  have default : (Tree.exportDefault value).declaredNames = value.varNames := by
    have fields : (Tree.exportDefault value).varNames = value.varNames := by
      rw [Tree.exportDefault, Tree.varNames_synthetic rfl (by decide)]
      simp [Tree.fieldVars, Tree.isNoteKey]
    have inner : (Tree.exportDefault value).unexported = value := rfl
    obtain ⟨_, functions, lexicals⟩ :=
      Tree.own_of_not_declaration (Tree.isDeclaration_of_isA object (by decide))
    rw [Tree.declaredNames, fields, inner, functions, lexicals, List.append_nil, List.append_nil]
  rw [flatMap_anchorAll fun u region => Tree.declaredNames_mapMark u _, List.flatMap_append,
    List.flatMap_singleton, default]
  split <;> simp [named]

/-- An expression statement becomes statements that declare the same names. -/
theorem declaredNames_expression (isExpression : t.isA "ExpressionStatement") (p : Progress)
    (orderly : t.Orderly) :
    (expressionStatement s t p).1.flatMap Tree.declaredNames ~ t.declaredNames := by
  have plain : t.declaredNames = t.varNames :=
    Tree.declaredNames_other (Tree.isDeclaration_of_isA isExpression (by decide))
      (Tree.unexported_of_isA isExpression (by decide))
  have step := expressionStatement_step s t p
  generalize expressionStatement s t p = result at step ⊢
  cases step with
  | dynamic =>
    rw [List.flatMap_singleton]
    exact .of_eq (Tree.declaredNames_mapMark ..)
  | @loaded target module called named =>
    -- A call of `require` declares nothing, and neither does an import without names.
    have literal : target.stringValue?.isSome := Option.isSome_of_eq_some named
    cases Loader.calls_of_classify called with
    | plain call =>
      have none := varNames_expression orderly isExpression
      have expression : (t.get "expression").Orderly := orderly.get rfl
      have source := (namesModule_importSource s target module p).varNames
        (fun part member => expression part (call.target_subset member)) literal
      rw [Tree.varNames_requires expression call literal] at none
      rw [plain, none.eq_nil, List.flatMap_singleton, Tree.anchor, Tree.declaredNames_mapMark,
        Tree.importEffects, Tree.declaredNames_importFrom (by simp) source]
      exact .nil
  | discarded => simp
  | idle => simp
  | refused => simp
  | exported uncalled assigned object =>
    rw [plain, declaredNames_exports _ object]
    exact (varNames_exportsValue orderly isExpression assigned).symm

/-- One statement: it becomes statements that declare the same names and those of its factories. -/
theorem declaredNames_step (p : Progress) (orderly : t.Orderly)
    (placed : ∀ part ∈ t.parts, part.WellPlaced) :
    (step s t p).1.flatMap Tree.declaredNames ~
      t.declaredNames ++ freshNames p.names.bound (factoryBases s t.factoryNames) := by
  -- Commenting what lies below changes neither what it declares nor what it asks for.
  have same := Tree.declaredNames_annotate s.marker false t
  have commented := orderly.annotate s.marker false
  rw [← bound_noted t p, ← factoryNames_annotate s.marker t, ← same]
  change (statement s (t.annotate s.marker false).1 _).1.flatMap _ ~ _
  rw [statement_eq, Tree.isA_annotate, Tree.isA_annotate]
  split
  · rename_i isDeclaration
    have self := placed t (Tree.mem_parts_of_kind (Tree.kind_of_isA isDeclaration))
    refine declaredNames_declared s (by rwa [Tree.isA_annotate]) _
      (Tree.quiet_of_skeleton (Tree.skeleton_annotate ..) (self.quiet_declaration isDeclaration))
      commented ?_
    rw [Tree.declarations_annotate s.marker false isDeclaration, List.forall_mem_map]
    intro d held
    rw [Tree.isA_annotate]
    exact self.declared isDeclaration d held
  · rename_i noDeclaration
    have none : (t.annotate s.marker false).1.factoryNames = [] := by
      simp [Tree.factoryNames, noDeclaration]
    rw [none]
    split
    · rename_i isExpression
      refine (declaredNames_expression s (by rwa [Tree.isA_annotate]) _ commented).trans ?_
      simp [factoryBases, freshNames]
    · simp [factoryBases, freshNames]

/-- All statements: together they declare the same names and those of the factories. -/
theorem declaredNames_steps {ts : List Tree} (p : Progress) (orderly : ∀ t ∈ ts, t.Orderly)
    (placed : ∀ t ∈ ts, ∀ part ∈ t.parts, part.WellPlaced) :
    (steps s ts p).1.flatMap Tree.declaredNames ~ ts.flatMap Tree.declaredNames ++
      freshNames p.names.bound (factoryBases s (ts.flatMap Tree.factoryNames)) := by
  -- Later factories have to be apart from earlier ones, so the names bound so far are generalized.
  induction ts generalizing p with
  | nil => exact .nil
  | cons t rest ih =>
    have here := declaredNames_step s p (orderly t List.mem_cons_self)
      (placed t List.mem_cons_self)
    have later := ih (step s t p).2.2 (fun u held => orderly u (List.mem_cons_of_mem _ held))
      fun u held => placed u (List.mem_cons_of_mem _ held)
    rw [bound_step] at later
    simp only [steps]
    rw [List.flatMap_append, List.flatMap_cons, List.flatMap_cons, factoryBases, List.map_append,
      freshNames_append]
    exact (here.append later).trans (append_append_perm ..)

/-- The imports that one declaration becomes bind the names taken over, and those of factories. -/
theorem importNames_step (isDeclaration : t.isA "VariableDeclaration") (p : Progress) :
    (step s t p).1.flatMap Tree.importNames ~
      t.takenNames ++ freshNames p.names.bound (factoryBases s t.factoryNames) := by
  -- Commenting comes first and changes neither names nor factories.
  have here := importNames_declaration s (t := (t.annotate s.marker false).1)
    (by rwa [Tree.isA_annotate]) ((p.mention t.mentions).reportAll t.buriedDiagnostics)
  rw [Tree.takenNames_annotate, factoryNames_annotate, bound_noted] at here
  have becomes : (step s t p).1 = (declaration s (t.annotate s.marker false).1
      ((p.mention t.mentions).reportAll t.buriedDiagnostics)).1 := by
    change (statement s _ _).1 = _
    rw [statement_eq, Tree.isA_annotate, if_pos isDeclaration]
  rwa [becomes]

/-- The names bound by the imports that take the place of declarators. -/
def replacedNames (ts : List Tree) (p : Progress) : List Text :=
  (ts.zip (outputs s ts p)).flatMap fun block =>
    if block.1.isA "VariableDeclaration" then block.2.flatMap Tree.importNames else []

/-- These are the names taken over, and those of the factories. -/
theorem mem_replacedNames {ts : List Tree} (p : Progress) {name : Text} :
    name ∈ replacedNames s ts p ↔ name ∈ ts.flatMap Tree.takenNames ∨
      name ∈ freshNames p.names.bound (factoryBases s (ts.flatMap Tree.factoryNames)) := by
  induction ts generalizing p with
  | nil => simp [replacedNames, factoryBases, freshNames]
  | cons t rest ih =>
    have later := ih (step s t p).2.2
    rw [bound_step] at later
    -- Only declarations are replaced by imports that bind names.
    have here : name ∈ (if t.isA "VariableDeclaration" then
          (step s t p).1.flatMap Tree.importNames else []) ↔
        name ∈ t.takenNames ∨
          name ∈ freshNames p.names.bound (factoryBases s t.factoryNames) := by
      split
      · rw [(importNames_step s ‹_› p).mem_iff, List.mem_append]
      · rename_i other
        simp [Tree.takenNames, Tree.factoryNames, other, factoryBases, freshNames]
    have first : replacedNames s (t :: rest) p = (if t.isA "VariableDeclaration" then
        (step s t p).1.flatMap Tree.importNames else []) ++
          replacedNames s rest (step s t p).2.2 := by
      rw [replacedNames, outputs, List.zip_cons_cons, List.flatMap_cons]
      rfl
    rw [first, List.mem_append, here, later, List.flatMap_cons, List.flatMap_cons, factoryBases,
      factoryBases, factoryBases, List.map_append, freshNames_append, List.mem_append,
      List.mem_append]
    exact or_or_or_comm

end Statements

section Program

variable {program : Tree}

/-- The definitions put before a body declare the names they bind. -/
theorem declaredNames_opening (names : Polyfill) (body : List Tree) :
    (opening names body).flatMap Tree.declaredNames = names.declared := by
  have helper (imported bound module : Text) :
      (Polyfill.helperImport imported bound module).declaredNames = [bound] :=
    Tree.declaredNames_importFrom (by simpa using .named imported bound) rfl
  have constant (name : Text) {init : Tree} (plain : init.varNames = []) :
      (Polyfill.constant name init).declaredNames = [name] := by
    have declarator : (Tree.variableDeclarator (.identifier name) init).varNames = [] := by
      rw [Tree.variableDeclarator, Tree.varNames_synthetic rfl (by decide)]
      simp [Tree.fieldVars, plain]
    have names := Tree.declaredNames_declaration (t := Polyfill.constant name init) rfl (by
      change ∀ field ∈ [("declarations", Tree.list
        [Tree.variableDeclarator (.identifier name) init]), ("kind", Tree.text "const")], _
      simp [Tree.fieldVars, Tree.varNames_list, declarator])
    rw [names]
    exact (List.flatMap_singleton ..).trans (Tree.patternNames_name rfl)
  have path : names.modulePath.varNames = [] := rfl
  have parent : (Tree.call (.identifier names.parentName) [names.modulePath]).varNames = [] := rfl
  have placed : (opening names body).flatMap Tree.declaredNames =
      names.statements.flatMap Tree.declaredNames := by
    simp only [opening, List.flatMap_map]
    exact List.flatMap_congr fun t _ => Tree.declaredNames_mapMark ..
  -- Each statement declares one name, whichever of the two definitions are there.
  rw [placed]
  cases dir : names.needsDirname <;> cases file : names.needsFilename <;>
    simp [Polyfill.declared_eq, Polyfill.statements, dir, file, helper, constant _ path,
      constant _ parent]

/-- What a program declares in its scope is bound in it, and at the top level. -/
theorem bound_of_mem_bodyNames (isProgram : program.isA "Program")
    (series : (program.get "body").isSeries) (placed : ∀ part ∈ program.parts, part.WellPlaced)
    {name : Text} (declared : name ∈ Tree.bodyNames (program.get "body").items) :
    name ∈ (Scope.analyze program).topLevelNames ∧ name ∈ (Scope.analyze program).boundNames := by
  -- What scoping says of a statement agrees with what the analysis records of it.
  obtain ⟨t, held, own⟩ := List.mem_flatMap.mp ((Tree.bodyNames_perm _).mem_iff.mp declared)
  have agrees := Tree.agrees_of_wellPlaced fun part member =>
    placed part ((Tree.parts_sublist_of_mem_get rfl held).subset member)
  have entry : (true, name) ∈ (Scope.journal program).entries := by
    rw [entries_program isProgram series]
    exact List.mem_flatMap.mpr ⟨t, held, (agrees 0 name).mpr (Tree.declaredNames_subset t own)⟩
  exact ⟨Scope.mem_topLevelNames.mpr entry, Scope.mem_boundNames.mpr ⟨true, entry⟩⟩

/-- The names that a lifted program declares: those of the program, of its factories and of the
definitions put before its body. -/
theorem bodyNames_lift (orderly : program.Orderly)
    (placed : ∀ part ∈ program.parts, part.WellPlaced) :
    Tree.bodyNames (opening (finalNames s program) (newBody s program) ++ newBody s program) ~
      (finalNames s program).declared ++
        (Tree.bodyNames (program.get "body").items ++ factories s program) := by
  -- The order of declarations does not matter, so the names can be sorted by where they come from.
  have walked : Tree.isNoteKey "body" = false := rfl
  have body := declaredNames_steps s (.ofLedger (Scope.analyze program))
    (fun t held => orderly.item walked held) fun t held part member =>
      placed part ((Tree.parts_sublist_of_mem_get walked held).subset member)
  refine (Tree.bodyNames_perm _).trans ?_
  rw [List.flatMap_append, declaredNames_opening]
  exact .append_left _ (body.trans (.append_right _ (Tree.bodyNames_perm _).symm))

/-- Of the names in use, the definitions put before a body declare those that have to be defined. -/
theorem mem_declared_of_bound {names : Polyfill} {name : Text} (bound : name ∈ names.bound) :
    name ∈ names.declared ↔ names.needs name := by
  -- The helpers are imported under names that are not in use.
  have path : name ≠ names.toPathName := fun same => freshName_not_mem _ _ (same ▸ bound)
  have parent : name ≠ names.parentName := fun same => (names.parentName_not_mem).1 (same ▸ bound)
  rw [Polyfill.declared_eq, Polyfill.needs]
  cases dir : names.needsDirname <;> cases file : names.needsFilename <;>
    simp [path, parent, eq_comm]

/-- How often a name that the program declares is declared in the lifted program. -/
theorem count_of_declared (isProgram : program.isA "Program")
    (series : (program.get "body").isSeries) (orderly : program.Orderly)
    (placed : ∀ part ∈ program.parts, part.WellPlaced) {name : Text}
    (declared : name ∈ Tree.bodyNames (program.get "body").items) :
    (Tree.bodyNames (opening (finalNames s program) (newBody s program) ++
      newBody s program)).count name =
        (Tree.bodyNames (program.get "body").items).count name := by
  obtain ⟨top, bound⟩ := bound_of_mem_bodyNames isProgram series placed declared
  have within : (finalNames s program).topLevel ⊆ (finalNames s program).bound := by
    rw [finalNames_eq]
    intro other held
    obtain entry := Scope.mem_topLevelNames.mp held
    exact List.mem_append_left _ (Scope.mem_boundNames.mpr ⟨true, entry⟩)
  -- Definitions avoid what is bound at the top level, and factories what is bound anywhere.
  have noDefinition : name ∉ (finalNames s program).declared := fun defined =>
    Polyfill.declared_free within name defined (by rw [finalNames_eq]; exact top)
  have noFactory : name ∉ factories s program := fun chosen =>
    not_mem_of_mem_freshNames chosen bound
  rw [(bodyNames_lift s orderly placed).count_eq, List.count_append, List.count_append,
    List.count_eq_zero.mpr noDefinition, List.count_eq_zero.mpr noFactory]
  omega

/-- How often the name of a factory is declared. -/
theorem count_of_factory (isProgram : program.isA "Program")
    (series : (program.get "body").isSeries) (orderly : program.Orderly)
    (placed : ∀ part ∈ program.parts, part.WellPlaced) {factory : Text}
    (chosen : factory ∈ factories s program) :
    (Tree.bodyNames (opening (finalNames s program) (newBody s program) ++
      newBody s program)).count factory = 1 ↔ ¬(finalNames s program).needs factory := by
  -- It is fresh, so the program does not declare it; it is chosen once; a definition may have it
  -- too.
  have undeclared : factory ∉ Tree.bodyNames (program.get "body").items := fun declared =>
    not_mem_of_mem_freshNames chosen (bound_of_mem_bodyNames isProgram series placed declared).2
  have once : (factories s program).count factory = 1 :=
    List.count_eq_one_of_mem (freshNames_nodup _ _) chosen
  have taken : factory ∈ (finalNames s program).bound := by
    rw [finalNames_eq]
    exact List.mem_append_right _ chosen
  rw [(bodyNames_lift s orderly placed).count_eq, List.count_append, List.count_append, once,
    List.count_eq_zero.mpr undeclared, ← mem_declared_of_bound taken, ← List.count_eq_zero]
  omega

/-- The names taken over from a statement are declared by it, and by a `let` or `const` only if it
is one. -/
theorem mem_of_mem_takenNames {t : Tree} {name : Text} (taken : name ∈ t.takenNames) :
    t.isA "VariableDeclaration" ∧ name ∈ t.declaratorNames := by
  -- Only a declaration has declarators, and those taken over are among them.
  rw [Tree.takenNames] at taken
  split at taken
  · obtain ⟨d, held, named⟩ := List.mem_flatMap.mp taken
    exact ⟨‹_›, List.mem_flatMap.mpr ⟨d, (List.mem_filter.mp held).1, named⟩⟩
  · cases taken

end Program

end Lift

/-- In a program in which no name of a `let`, `const`, `class` or import is declared twice, the
imports that take the place of declarators share their names with no other declaration if and only
if no name that is taken over from a `var` was declared twice, and no factory is called like an
ambient name that gets defined. -/
theorem replacedNames_declared_once_iff {program : Tree} (isProgram : program.isA "Program")
    (series : (program.get "body").isSeries)
    (regular : ∀ part ∈ program.parts, part.Regular)
    (placed : ∀ part ∈ program.parts, part.WellPlaced)
    (legal : Tree.Unambiguous (program.get "body").items) (s : Surroundings) :
    let body := (program.get "body").items
    let start := Progress.ofLedger (Scope.analyze program)
    (program.Ranged → ∃ lifted, lift s program = .ok lifted) ∧
    ∀ lifted, lift s program = .ok lifted →
      (lifted.program.get "body").items =
        Lift.opening (Lift.finalNames s program) (Lift.newBody s program) ++
          (Lift.outputs s body start).flatten ∧
      ((∀ name ∈ Lift.replacedNames s body start,
          (Tree.bodyNames (lifted.program.get "body").items).count name = 1) ↔
        (∀ t ∈ body, t.isLexical = false → ∀ name ∈ t.takenNames,
          (Tree.bodyNames body).count name = 1) ∧
        ∀ factory ∈ Lift.factories s program, ¬(Lift.finalNames s program).needs factory) := by
  intro body start
  refine ⟨Lift.exists_liftWith _ s isProgram, fun lifted known => ?_⟩
  obtain ⟨_, _, items⟩ := Lift.program_of_lift s known
  have declared {t : Tree} (held : t ∈ body) {name : Text} (taken : name ∈ t.takenNames) :
      name ∈ Tree.bodyNames body := by
    obtain ⟨isDeclaration, named⟩ := Lift.mem_of_mem_takenNames taken
    have self : t ∈ program.parts := (Tree.parts_sublist_of_mem_get rfl held).subset
      (Tree.mem_parts_of_kind (Tree.kind_of_isA isDeclaration))
    rw [(Tree.bodyNames_perm _).mem_iff]
    refine List.mem_flatMap.mpr ⟨t, held, ?_⟩
    rwa [Tree.declaredNames_declaration isDeclaration
      ((placed t self).quiet_declaration isDeclaration)]
  have count {t : Tree} (held : t ∈ body) {name : Text} (taken : name ∈ t.takenNames) :
      (Tree.bodyNames (lifted.program.get "body").items).count name =
        (Tree.bodyNames body).count name := by
    rw [items]
    exact Lift.count_of_declared s isProgram series regular placed (declared held taken)
  have factory {name : Text} (chosen : name ∈ Lift.factories s program) :
      (Tree.bodyNames (lifted.program.get "body").items).count name = 1 ↔
        ¬(Lift.finalNames s program).needs name := by
    rw [items]
    exact Lift.count_of_factory s isProgram series regular placed chosen
  refine ⟨by rw [items, ← Lift.steps_fst]; rfl, fun once => ⟨?_, ?_⟩, ?_⟩
  · intro t held _ name taken
    rw [← count held taken]
    exact once name ((Lift.mem_replacedNames s start).mpr
      (.inl (List.mem_flatMap.mpr ⟨t, held, taken⟩)))
  · intro name chosen
    exact (factory chosen).mp (once name ((Lift.mem_replacedNames s start).mpr (.inr chosen)))
  · rintro ⟨vars, apart⟩ name replaced
    rcases (Lift.mem_replacedNames s start).mp replaced with taken | chosen
    · obtain ⟨t, held, taken⟩ := List.mem_flatMap.mp taken
      rw [count held taken]
      -- A name of a `let` or `const` is declared once to begin with.
      cases lexical : t.isLexical with
      | false => exact vars t held lexical name taken
      | true =>
        obtain ⟨isDeclaration, named⟩ := Lift.mem_of_mem_takenNames taken
        refine legal t held name ?_
        rw [Tree.unexported_of_isA isDeclaration (by decide), Tree.ownLexicals,
          beq_iff_eq.mp isDeclaration]
        simpa [lexical] using named
    · exact (factory chosen).mpr (apart name chosen)

/-- `word name = require(module)` -/
def loadStatement (word name module : Text) : Tree :=
  .variableDeclaration (.text word) [.variableDeclarator (.identifier name)
    (.call (.identifier "require") [.stringLiteral '"' module])]

/-- A `var` and a `const` that load modules become imports with names of their own beside another
`var` that is declared twice. -/
theorem replacedNames_declared_once_apart :
    let other : Tree := .variableDeclaration (.text "var")
      [.variableDeclarator (.identifier "c") .null]
    let program : Tree := .synthetic "Program" [("body", .list
      [(loadStatement "var" "a" "x").readAt ⟨0, 21⟩,
        (loadStatement "const" "b" "y").readAt ⟨22, 45⟩, other.readAt ⟨46, 52⟩,
        other.readAt ⟨53, 59⟩])]
    let body := (program.get "body").items
    let start := Progress.ofLedger (Scope.analyze program)
    let s : Surroundings := { isFile := fun _ => false }
    program.Ranged ∧ (∀ part ∈ program.parts, part.Regular) ∧
      (∀ part ∈ program.parts, part.WellPlaced) ∧ Tree.Unambiguous body ∧
      Lift.replacedNames s body start = ["a", "b"] ∧
      ∃ lifted, lift s program = .ok lifted ∧ ∀ name ∈ Lift.replacedNames s body start,
        (Tree.bodyNames (lifted.program.get "body").items).count name = 1 := by
  intro other program body start s
  have ranged : program.Ranged := by decide
  have regular : ∀ part ∈ program.parts, part.Regular := by decide +kernel
  have placed : ∀ part ∈ program.parts, part.WellPlaced := by decide +kernel
  have legal : Tree.Unambiguous body := by decide +kernel
  obtain ⟨lifts, each⟩ :=
    @replacedNames_declared_once_iff program rfl rfl regular placed legal s
  obtain ⟨lifted, known⟩ := lifts ranged
  obtain ⟨_, once⟩ := each lifted known
  -- No factory is called here at all.
  have apart : ∀ factory ∈ Lift.factories s program,
      ¬(Lift.finalNames s program).needs factory := by
    rw [show Lift.factories s program = [] by decide +kernel]
    simp
  exact ⟨ranged, regular, placed, legal, by decide +kernel, lifted, known,
    once.mpr ⟨by decide +kernel, apart⟩⟩

/-- A `var` that is declared twice, each time for a module, becomes two imports of one name. -/
theorem replacedNames_declared_twice :
    let program : Tree := .synthetic "Program" [("body", .list
      [(loadStatement "var" "a" "x").readAt ⟨0, 21⟩,
        (loadStatement "var" "a" "y").readAt ⟨22, 43⟩])]
    (∀ part ∈ program.parts, part.Regular) ∧ (∀ part ∈ program.parts, part.WellPlaced) ∧
      Tree.Unambiguous (program.get "body").items ∧
      (lift { isFile := fun _ => false } program).toOption.map (fun lifted =>
        (lifted.program.get "body").items.map Tree.importNames) =
          some [[("a" : Text)], [("a" : Text)]] := by
  decide +kernel

end ModuleLift
