import ModuleLift.Proofs.Emission.Printed
import ModuleLift.Proofs.Lift.Step

/-! What a top-level statement can become, said once for all that is proved about lifting. -/

namespace ModuleLift

open Emission (ImportsName)

namespace Tree

/-- Whether an expression is a call of `require` with something that is no string literal. -/
def loadsDynamically (t : Tree) : Bool :=
  (Loader.classify t).any fun loader => loader.module?.isNone

/-- Whether a statement is a declaration or an expression statement made of a call of `require` with
something that is no string literal. -/
def isDynamicLoad (t : Tree) : Bool :=
  if t.isA "VariableDeclaration" then
    (t.get "declarations").items.any fun d => (d.get "init").loadsDynamically
  else if t.isA "ExpressionStatement" then (t.get "expression").loadsDynamically
  else false

end Tree

namespace Lift

/-- An import from the literal that `require` was called with, or from a completed one. -/
inductive ImportsFrom (target : Tree) : Tree → Prop where
  | written {specifiers : List Tree} (names : ∀ s ∈ specifiers, ImportsName s) :
      ImportsFrom target (.importFrom specifiers target)
  | completed {specifiers : List Tree} (names : ∀ s ∈ specifiers, ImportsName s) (quote : Char)
      (path : Text) : ImportsFrom target (.importFrom specifiers (.stringLiteral quote path))

/-- The source of an import is the literal itself or a completed one. -/
theorem importsFrom_importSource (s : Surroundings) (target : Tree) (module : Text) (p : Progress)
    {specifiers : List Tree} (names : ∀ s ∈ specifiers, ImportsName s) :
    ImportsFrom target (.importFrom specifiers (importSource s target module p).1) := by
  -- A specifier that stays keeps its literal; a completed one gets a new literal.
  simp only [importSource]
  split
  · exact .written names
  · exact .completed names _ _

/-- What a declarator can become. -/
inductive Becomes (d : Tree) : Fate → Prop where
  | kept (settled : (d.get "init").loadsDynamically = false) : Becomes d (.kept d)
  | dynamic (unknown : (d.get "init").loadsDynamically) : Becomes d (.dynamic d)
  -- A factory is left out here: what it returns still has to be called.
  | imported {loader : Loader} {statement : Tree}
      (called : Loader.classify (d.get "init") = some loader) (named : loader.module?.isSome)
      (direct : ∀ target arguments, loader ≠ .factory target arguments)
      (bound : (d.get "id").isIdentifier ∨
        (d.get "id").isA "ObjectPattern" ∧ (patternPairs? (d.get "id")).isSome)
      (imports : ImportsFrom loader.target statement) : Becomes d (.imported statement)
  -- The factory is imported under a new name, and called in the declarator that stays.
  | factored {target : Tree} {arguments : List Tree} {statement : Tree} {factory : Text}
      (called : Loader.classify (d.get "init") = some (.factory target arguments))
      (named : target.stringValue?.isSome) (bound : (d.get "id").isIdentifier)
      (imports : ImportsFrom target statement) :
      Becomes d (.factored statement
        (.variableDeclarator (d.get "id") (.call (.identifier factory) arguments)))

/-- The import that binds a target names what it imports. -/
theorem Binds.exists_specifiers {id source statement : Tree} {loader : Loader}
    (binds : Binds id source loader statement) :
    ∃ specifiers, statement = .importFrom specifiers source ∧ ∀ s ∈ specifiers, ImportsName s := by
  -- A whole module, a member of it, or the names of a flat pattern are imported.
  cases binds with
  | whole => exact ⟨_, rfl, by simpa using .whole _⟩
  | member => exact ⟨_, rfl, by simpa using .named _ _⟩
  | flat =>
    refine ⟨_, rfl, fun specifier held => ?_⟩
    obtain ⟨pair, _, rfl⟩ := List.mem_map.mp held
    exact .named pair.1 pair.2

/-- What a declarator becomes. -/
theorem declarator_becomes (s : Surroundings) (d : Tree) (p : Progress) :
    Becomes d (declarator s d p).1 := by
  -- The step tells which calls are made and what is bound; the rest is left out here.
  have step := declarator_step s d p
  generalize declarator s d p = result at step ⊢
  cases step with
  | uncalled uncalled => exact .kept (by simp [Tree.loadsDynamically, uncalled])
  | dynamic called unnamed => exact .dynamic (by simp [Tree.loadsDynamically, called, unnamed])
  | refused called named => exact .kept (by simp [Tree.loadsDynamically, called, named])
  | imported called named fit binds =>
    obtain ⟨specifiers, rfl, names⟩ := binds.exists_specifiers
    refine .imported called (Option.isSome_of_eq_some named) ?_ ?_
      (importsFrom_importSource s _ _ p names)
    · cases binds <;> simp
    · cases binds with
      | whole name => exact .inl name
      | member name => exact .inl name
      | flat pattern found => exact .inr ⟨pattern, Option.isSome_of_eq_some found⟩
  | factored called named fit =>
    exact .factored called (Option.isSome_of_eq_some named) (Bool.and_eq_true_iff.mp fit).1
      (importsFrom_importSource s _ _ p (by simpa using .whole _))

/-- What several declarators become. -/
theorem declarators_become (s : Surroundings) (ds : List Tree) (p : Progress) :
    List.Forall₂ Becomes ds (declarators s ds p).1 := by
  -- What was noted before does not matter for the form of the outcome.
  induction ds generalizing p with
  | nil => exact .nil
  | cons d rest ih => exact .cons (declarator_becomes s d p) (ih _)

/-- An element of one list has its counterpart in the other. -/
theorem exists_of_forall₂ {α β : Type} {R : α → β → Prop} {first : List α} {second : List β}
    (each : List.Forall₂ R first second) {a : α} (held : a ∈ first) : ∃ b ∈ second, R a b := by
  -- The induction follows the pairs, one of which is the one that is asked for.
  induction each with
  | nil => cases held
  | cons here _ ih =>
    rcases List.mem_cons.mp held with rfl | later
    · exact ⟨_, List.mem_cons_self, here⟩
    · obtain ⟨b, member, found⟩ := ih later
      exact ⟨b, List.mem_cons_of_mem _ member, found⟩

/-- Every fate is that of a declarator. -/
theorem exists_becomes {ds : List Tree} {fates : List Fate} (each : List.Forall₂ Becomes ds fates)
    {fate : Fate} (member : fate ∈ fates) : ∃ d ∈ ds, Becomes d fate :=
  exists_of_forall₂ each.flip member

/-- An import that a declarator becomes is one from the literal that it calls `require` with. -/
theorem Becomes.importsFrom {d statement : Tree} {fate : Fate} (becomes : Becomes d fate)
    (made : fate.statement? = some statement) :
    ∃ loader, Loader.classify (d.get "init") = some loader ∧ loader.target.stringValue?.isSome ∧
      ImportsFrom loader.target statement := by
  -- Only two of the outcomes have an import in them.
  cases becomes with
  | imported called named _ _ imports =>
    cases made
    exact ⟨_, called, named, imports⟩
  | factored called named _ imports =>
    cases made
    exact ⟨_, called, named, imports⟩
  | _ => cases made

/-- The statements put in for declarators are imports from the literals of their calls. -/
theorem exists_importsFrom {ds : List Tree} {fates : List Fate}
    (each : List.Forall₂ Becomes ds fates) {u : Tree} (put : u ∈ fates.filterMap Fate.statement?) :
    ∃ target, ImportsFrom target u := by
  -- Each of them belongs to one declarator.
  obtain ⟨fate, member, made⟩ := List.mem_filterMap.mp put
  obtain ⟨d, _, becomes⟩ := exists_becomes each member
  obtain ⟨loader, _, _, imports⟩ := becomes.importsFrom made
  exact ⟨loader.target, imports⟩

/-- What a top-level statement can become. -/
inductive Outcome (marker : Text) (t : Tree) : List Tree → Prop where
  | kept (settled : t.isDynamicLoad = false) : Outcome marker t [t]
  | dynamic (unknown : t.isDynamicLoad) : Outcome marker t [t.comment marker]
  -- At least one import was made; a declaration without one is kept or commented.
  | declared {fates : List Fate} (isDeclaration : t.isA "VariableDeclaration")
      (each : List.Forall₂ Becomes (t.get "declarations").items fates)
      (some : fates.filterMap Fate.statement? ≠ []) : Outcome marker t (assemble marker t fates)
  | loaded {target statement : Tree} (isExpression : t.isA "ExpressionStatement")
      (called : Loader.classify (t.get "expression") = some (.plain target))
      (named : target.stringValue?.isSome) (imports : ImportsFrom target statement) :
      Outcome marker t (anchorAll t.readRegion [statement])
  | exported {value : Tree} (isExpression : t.isA "ExpressionStatement")
      (other : Loader.classify (t.get "expression") = none)
      (assigned : exportsValue? t = some value) (object : value.isA "ObjectExpression")
      (pairs : List (Text × Text)) :
      Outcome marker t (anchorAll t.readRegion
        ((if pairs.isEmpty then [] else [.exportNamed pairs]) ++ [.exportDefault value]))

/-- Exports are a list of names, if there are any, and a value. -/
theorem eq_of_mem_exports {pairs : List (Text × Text)} {value u : Tree}
    (member : u ∈ (if pairs.isEmpty then [] else [.exportNamed pairs]) ++ [.exportDefault value]) :
    u = .exportNamed pairs ∨ u = .exportDefault value := by
  -- The list is left out if it would be empty.
  rcases List.mem_append.mp member with named | whole
  · split at named
    · cases named
    · exact .inl (List.mem_singleton.mp named)
  · exact .inr (List.mem_singleton.mp whole)

/-- Whether a declarator is left with a call whose argument is no string literal. -/
theorem Becomes.isDynamic_eq {d : Tree} {fate : Fate} (becomes : Becomes d fate) :
    fate.isDynamic = (d.get "init").loadsDynamically := by
  -- An import is made only if the argument is a string literal.
  cases becomes with
  | kept settled => exact settled.symm
  | dynamic unknown => exact unknown.symm
  | imported called named =>
    rw [Tree.loadsDynamically, called]
    exact (Option.isNone_eq_false_iff.mpr named).symm
  | factored called named =>
    rw [Tree.loadsDynamically, called]
    exact (Option.isNone_eq_false_iff.mpr named).symm

/-- Whether some declarator is left with such a call. -/
theorem any_isDynamic {ds : List Tree} {fates : List Fate} (each : List.Forall₂ Becomes ds fates) :
    fates.any Fate.isDynamic = ds.any fun d => (d.get "init").loadsDynamically := by
  -- Each fate tells whether its declarator was left with such a call.
  induction each with
  | nil => rfl
  | cons becomes _ ih => rw [List.any_cons, List.any_cons, becomes.isDynamic_eq, ih]

/-- What is left of a declaration, marked if a call in it is. -/
def remainder (marker : Text) (declaration : Tree) (fates : List Fate) : List Tree :=
  let left := fates.filterMap Fate.declarator?
  let whole : Tree := .variableDeclaration (declaration.get "kind") left
  if left.isEmpty then []
  else [if fates.any Fate.isDynamic then whole.comment marker else whole]

section Joining

variable {marker : Text} {declaration : Tree} {fates : List Fate}

/-- What is left of a declaration is one statement with the declarators that are left, and with a
comment if one of them needs it. -/
theorem eq_of_mem_remainder {u : Tree} (held : u ∈ remainder marker declaration fates) :
    let whole : Tree :=
      .variableDeclaration (declaration.get "kind") (fates.filterMap Fate.declarator?)
    u = if fates.any Fate.isDynamic then whole.comment marker else whole := by
  -- Without a declarator there is no statement either.
  simp only [remainder] at held
  split at held
  · cases held
  · exact List.mem_singleton.mp held

/-- The imports and what is left of it take the place of a declaration that something was imported
from. -/
theorem joinFates_eq (some : fates.filterMap Fate.statement? ≠ []) :
    joinFates marker declaration fates =
      .replaced (fates.filterMap Fate.statement? ++ remainder marker declaration fates) := by
  -- An import means that the declaration cannot stay as it is.
  simp only [joinFates, remainder]
  rw [if_neg (by simpa using some)]

/-- A declaration from which nothing is imported stays. -/
theorem joinFates_whole (none : fates.filterMap Fate.statement? = []) :
    joinFates marker declaration fates =
      .kept (if fates.any Fate.isDynamic then declaration.comment marker else declaration) := by
  simp [joinFates, none]

/-- A declaration that something was imported from becomes the imports and what is left of it. -/
theorem assemble_eq (some : fates.filterMap Fate.statement? ≠ []) :
    assemble marker declaration fates = anchorAll declaration.readRegion
      (fates.filterMap Fate.statement? ++ remainder marker declaration fates) := by
  -- The statements are put in the place of the declaration.
  rw [assemble, joinFates_eq some]
  rfl

/-- A declaration from which nothing is imported becomes itself, marked or not. -/
theorem assemble_whole (none : fates.filterMap Fate.statement? = []) :
    assemble marker declaration fates =
      [if fates.any Fate.isDynamic then declaration.comment marker else declaration] := by
  -- What is kept needs no place.
  rw [assemble, joinFates_whole none]
  rfl

end Joining

/-- What a declaration becomes. -/
theorem declaration_outcome (s : Surroundings) {t : Tree} (p : Progress)
    (isDeclaration : t.isA "VariableDeclaration") :
    Outcome s.marker t (declaration s t p).1 := by
  -- The declarators decide: whether one was imported, and whether one has to stay.
  have each := declarators_become s (t.get "declarations").items p
  have dynamic : t.isDynamicLoad =
      (declarators s (t.get "declarations").items p).1.any Fate.isDynamic := by
    rw [any_isDynamic each, Tree.isDynamicLoad, if_pos isDeclaration]
  simp only [declaration_eq]
  generalize (declarators s (t.get "declarations").items p).1 = fates at each dynamic
  by_cases none : fates.filterMap Fate.statement? = []
  · -- Without an import the declaration stays, marked or not.
    rw [assemble_whole none, ← dynamic]
    cases unknown : t.isDynamicLoad with
    | false => exact .kept unknown
    | true => exact .dynamic unknown
  · exact .declared isDeclaration each none

/-- An expression statement is no declaration, so its expression tells whether a call in it has an
argument that is no string literal. -/
theorem isDynamicLoad_expression {t : Tree} (isExpression : t.isA "ExpressionStatement") :
    t.isDynamicLoad = (t.get "expression").loadsDynamically := by
  -- A node is of one kind only.
  have other : t.isA "VariableDeclaration" = false := by
    rw [Tree.isA, beq_iff_eq.mp isExpression]
    rfl
  simp [Tree.isDynamicLoad, other, isExpression]

/-- What an expression statement becomes. -/
theorem expressionStatement_outcome (s : Surroundings) {t : Tree} (p : Progress)
    (isExpression : t.isA "ExpressionStatement") :
    Outcome s.marker t (expressionStatement s t p).1 := by
  -- The step tells what is called or assigned, and the outcome goes by that.
  have load := isDynamicLoad_expression isExpression
  rw [Tree.loadsDynamically] at load
  have step := expressionStatement_step s t p
  generalize expressionStatement s t p = result at step ⊢
  cases step with
  | dynamic called unnamed => exact .dynamic (by simp [load, called, unnamed])
  | loaded called named =>
    exact .loaded isExpression called (Option.isSome_of_eq_some named)
      (importsFrom_importSource s _ _ p (by simp))
  | discarded called named => exact .kept (by simp [load, called, named])
  | idle uncalled => exact .kept (by simp [load, uncalled])
  | refused uncalled => exact .kept (by simp [load, uncalled])
  | exported uncalled assigned object => exact .exported isExpression uncalled assigned object _

/-- What a top-level statement becomes. -/
theorem statement_outcome (s : Surroundings) (t : Tree) (p : Progress) :
    Outcome s.marker t (statement s t p).1 := by
  -- Only the two kinds of statements are ever replaced.
  rw [statement_eq]
  split
  · exact declaration_outcome s p ‹_›
  · split
    · exact expressionStatement_outcome s p ‹_›
    · rename_i noDeclaration noExpression
      exact .kept (by simp [Tree.isDynamicLoad, noDeclaration, noExpression])

/-- What the top-level statements become, one by one. -/
def outputs (s : Surroundings) : List Tree → Progress → List (List Tree)
  | [], _ => []
  | t :: rest, p => (step s t p).1 :: outputs s rest (step s t p).2.2

/-- The new body is what the statements become, in order. -/
theorem steps_fst (s : Surroundings) (ts : List Tree) (p : Progress) :
    (steps s ts p).1 = (outputs s ts p).flatten := by
  -- What a statement becomes depends on what was noted before it, so that is carried along.
  induction ts generalizing p with
  | nil => rfl
  | cons t rest ih => rw [outputs, List.flatten_cons, ← ih]; rfl

/-- A statement is commented below before it becomes something else. -/
theorem step_outcome (s : Surroundings) (t : Tree) (p : Progress) :
    Outcome s.marker (t.annotate s.marker false).1 (step s t p).1 :=
  statement_outcome s _ _

section Success

variable {s : Surroundings} {marker : Text} {t u : Tree}

/-- An import is an import declaration. -/
theorem ImportsFrom.isImport {target : Tree} (imports : ImportsFrom target u) :
    u.isA "ImportDeclaration" := by
  cases imports <;> rfl

/-- An import is a node. -/
theorem ImportsFrom.isNode {target : Tree} (imports : ImportsFrom target u) : u.isNode := by
  cases imports <;> rfl

/-- What takes the place of a declaration are nodes. -/
theorem isNode_of_mem_divided {fates : List Fate}
    (each : List.Forall₂ Becomes (t.get "declarations").items fates)
    (held : u ∈ fates.filterMap Fate.statement? ++ remainder marker t fates) : u.isNode := by
  -- They are imports, and what is left of the declaration.
  rcases List.mem_append.mp held with imported | left
  · obtain ⟨target, imports⟩ := exists_importsFrom each imported
    exact imports.isNode
  · rw [eq_of_mem_remainder left]
    split <;> rfl

/-- Whatever takes the place of a statement stands somewhere if the statement does. -/
theorem Outcome.placed {nodes : List Tree} (outcome : Outcome marker t nodes)
    (stands : t.region?.isSome) : ∀ u ∈ nodes, u.region?.isSome := by
  -- What is put in stands where it is anchored.
  have anchored {region : Region} {added : List Tree} (each : ∀ v ∈ added, v.isNode) :
      ∀ u ∈ anchorAll region added, u.region?.isSome := by
    intro u held
    obtain ⟨v, member, place, rfl⟩ := mem_anchorAll held
    rw [Tree.region?_anchor (each v member)]
    rfl
  cases outcome with
  | kept => exact List.forall_mem_singleton.mpr stands
  | dynamic => exact List.forall_mem_singleton.mpr (by rwa [Tree.region?_comment])
  | declared isDeclaration each some =>
    rw [assemble_eq some]
    exact anchored fun v => isNode_of_mem_divided each
  | loaded _ _ _ imports => exact anchored (List.forall_mem_singleton.mpr imports.isNode)
  | exported _ _ _ _ pairs =>
    refine anchored fun v held => ?_
    rcases eq_of_mem_exports held with rfl | rfl <;> rfl

/-- Something takes the place of a statement, if only the statement itself. -/
theorem Outcome.ne_nil {nodes : List Tree} (outcome : Outcome marker t nodes) : nodes ≠ [] := by
  -- A replacement has one statement at least, and each is anchored.
  have anchored {region : Region} {added : List Tree} (some : added ≠ []) :
      anchorAll region added ≠ [] := by
    cases added with
    | nil => exact some
    | cons t rest => cases rest <;> simp [anchorAll]
  cases outcome with
  | kept => simp
  | dynamic => simp
  | declared _ _ some =>
    rw [assemble_eq some]
    exact anchored (List.append_ne_nil_of_left_ne_nil some _)
  | loaded => exact anchored (List.cons_ne_nil _ _)
  | exported => exact anchored (by simp)

/-- A statement that was read stands somewhere. -/
theorem region?_of_ranged (read : t.range?.isSome) : t.region?.isSome := by
  -- A span would take the place of the range.
  rw [Tree.range?] at read
  rw [Tree.region?]
  cases t.mark.span with
  | none => exact read
  | some region => rfl

/-- A new body stands somewhere if the old one does. -/
theorem placed_steps {ts : List Tree} (stands : ∀ t ∈ ts, t.region?.isSome) (p : Progress) :
    ∀ u ∈ (steps s ts p).1, u.region?.isSome := by
  -- Each statement becomes some that stand where it does.
  induction ts generalizing p with
  | nil => exact List.forall_mem_nil _
  | cons t rest ih =>
    refine List.forall_mem_append.mpr ⟨?_, ?_⟩
    · refine (step_outcome s t p).placed ?_
      rw [Tree.region?_annotate]
      exact stands t List.mem_cons_self
    · exact ih (fun u member => stands u (List.mem_cons_of_mem _ member)) _

/-- What a program becomes if its statements were read. -/
theorem liftWith_of_ranged (ledger : Ledger) (s : Surroundings) {program : Tree}
    (isProgram : program.isA "Program") (ranged : program.Ranged) :
    liftWith ledger s program = .ok (liftedOf ledger s program) := by
  -- No statement misses its place, and the first of the new body has one for the definitions.
  have placed := @placed_steps s _ (fun t member => region?_of_ranged (ranged t member))
    (Progress.ofLedger ledger)
  rw [liftWith, if_pos isProgram, visitBody_of_ranged ranged]
  change (prelude _ _ >>= _) = _
  have starts : startsSomewhere (steps s (program.get "body").items (.ofLedger ledger)).1 := by
    rw [startsSomewhere, Option.all_eq_true]
    exact fun t first => placed t (List.mem_of_mem_head? first)
  rw [prelude_eq, starts, Bool.or_true]
  rfl

/-- A program can be lifted if its statements were read. -/
theorem exists_liftWith (ledger : Ledger) (s : Surroundings) {program : Tree}
    (isProgram : program.isA "Program") (ranged : program.Ranged) :
    ∃ lifted, liftWith ledger s program = .ok lifted :=
  ⟨_, liftWith_of_ranged ledger s isProgram ranged⟩

end Success

end Lift

end ModuleLift
