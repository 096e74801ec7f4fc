import ModuleLift.Proofs.Lift.Failure

/-! Lifting what came of a lift does not fail, unless a factory was given the name `require`: all
that is put in stands for some text, and nothing takes its place. -/

namespace ModuleLift

/-- A call of anything but `require` by its name is no call of `require`. -/
theorem Loader.classify_call {factory : Text} (other : factory ≠ "require")
    (arguments : List Tree) : classify (.call (.identifier factory) arguments) = none := by
  -- The callee is a name, so only its spelling could make it a call of `require`.
  have callee : (Tree.call (.identifier factory) arguments).get "callee" = .identifier factory :=
    rfl
  have named : (Tree.identifier factory).isNamed "require" = false := by
    simpa [Tree.isNamed, Tree.isText, Tree.identifier, Tree.synthetic, Tree.get, Tree.text?,
      Tree.fields] using fun _ => other
  have inner : staticArgument? (Tree.identifier factory) = none := rfl
  rw [classify, requireArgument?, callee, named, inner]
  rfl

/-- Whether a statement can be lifted where it stands: it was read, or it stands for some text and
nothing takes its place. -/
def Tree.IsStanding (t : Tree) : Prop :=
  t.range?.isSome ∨ t.region?.isSome ∧ t.isReplaced = false ∧ t.yieldsExports = false

namespace Lift

section Standing

variable {s : Surroundings} {t : Tree} {ts : List Tree}

/-- A statement that can be lifted where it stands does stand somewhere. -/
theorem stands_of_isStanding (standing : t.IsStanding) : t.region?.isSome :=
  standing.elim region?_of_ranged And.left

/-- Statements that can be lifted where they stand have all the places that are needed. -/
theorem sitedAll_of_standing (standing : ∀ t ∈ ts, t.IsStanding) (exported : Bool) :
    sitedAll exported ts := by
  -- Induction over the statements, for any answer to whether exports were made before.
  induction ts generalizing exported with
  | nil => rfl
  | cons t rest ih =>
    refine Bool.and_eq_true_iff.mpr
      ⟨?_, ih (fun u held => standing u (List.mem_cons_of_mem _ held)) _⟩
    rcases standing t List.mem_cons_self with read | ⟨_, whole, none⟩
    · rw [read, Bool.true_or]
    · simp [takesPlace, whole, none]

/-- A program whose statements can be lifted where they stand is lifted. -/
theorem liftWith_of_standing (ledger : Ledger) (s : Surroundings) {program : Tree}
    (isProgram : program.isA "Program")
    (standing : ∀ t ∈ (program.get "body").items, t.IsStanding) :
    liftWith ledger s program = .ok (liftedOf ledger s program) := by
  -- Both demands on places are met: by each statement, and by the first one.
  have starts : startsSomewhere (program.get "body").items := by
    rw [startsSomewhere, Option.all_eq_true]
    exact fun t first => stands_of_isStanding (standing t (List.mem_of_mem_head? first))
  rw [liftWith_eq, if_pos isProgram, sitedAll_of_standing standing, starts, Bool.or_true]
  rfl

/-- Nothing takes the place of a statement of any other kind. -/
theorem isStanding_of_isA {kind : String} (isA : t.isA kind)
    (noDeclaration : kind ≠ "VariableDeclaration") (noExpression : kind ≠ "ExpressionStatement")
    (stands : t.region?.isSome) : t.IsStanding := by
  -- Only declarations and expression statements are ever replaced.
  have other := Tree.isA_eq_false isA noDeclaration
  have another := Tree.isA_eq_false isA noExpression
  exact .inr ⟨stands, by simp [Tree.isReplaced, other, another],
    by simp [Tree.yieldsExports, another]⟩

/-- Nothing takes the place of a declaration without calls of `require` that imports can be made
for. -/
theorem isStanding_of_whole (isDeclaration : t.isA "VariableDeclaration")
    (whole : ∀ d ∈ (t.get "declarations").items, d.isLowered = false)
    (stands : t.region?.isSome) : t.IsStanding := by
  -- A declaration is replaced for one of its declarators, and makes no exports.
  refine .inr ⟨stands, ?_, Tree.yieldsExports_of_isA isDeclaration (by decide)⟩
  rw [Tree.isReplaced, if_pos isDeclaration]
  exact List.any_eq_false.mpr fun d held => by simp [whole d held]

/-- Comments below a statement leave it standing. -/
theorem isStanding_annotate (standing : t.IsStanding) (marker : Text) :
    (t.annotate marker false).1.IsStanding := by
  -- None of what standing asks for reads the comments below.
  rwa [Tree.IsStanding, Tree.range?_annotate, Tree.region?_annotate, Tree.isReplaced_annotate,
    Tree.yieldsExports_annotate]

/-- A comment leaves a statement standing. -/
theorem isStanding_comment (standing : t.IsStanding) (text : Text) :
    (t.comment text).IsStanding := by
  -- A comment changes neither the range nor the region of the mark.
  have range : (t.comment text).range? = t.range? := by
    rw [← Tree.range?_bare, Tree.bare_comment, Tree.range?_bare]
  rw [Tree.IsStanding, range, Tree.region?_comment]
  rwa [Tree.comment, Tree.isReplaced_mapMark, Tree.yieldsExports_mapMark]

end Standing

section Outputs

variable {s : Surroundings} {t u : Tree}

/-- A declarator with a call by some other name than `require` has nothing left to do. -/
theorem whole_called (id : Tree) {callee : Text} (other : callee ≠ "require")
    (arguments : List Tree) :
    let left := Tree.variableDeclarator id (.call (.identifier callee) arguments)
    left.isLowered = false ∧ (left.get "init").loadsDynamically = false := by
  -- Both answers are read off the form of the call, of which there is none.
  intro left
  have none : Loader.classify (left.get "init") = none := Loader.classify_call other arguments
  constructor
  · simp [Tree.isLowered, Tree.isTaken, Tree.takesFactory, none]
  · rw [Tree.loadsDynamically, none]
    rfl

/-- No import can be made for what is left of a declarator, unless it calls a factory that was named
`require`. -/
theorem whole_declarator {d left : Tree} {p : Progress}
    (spared : d.takesFactory →
      freshName ((d.get "id").name ++ s.factorySuffix) p.names.bound ≠ "require")
    (kept : (declarator s d p).1.declarator? = some left) : left.isLowered = false := by
  -- A factory is called by the name it got; all other declarators left are as they were.
  have lowered := isSome_statement_declarator s d p
  have step := declarator_step s d p
  generalize declarator s d p = result at step kept lowered
  cases step with
  | imported => cases kept
  | factored called named fit fresh =>
    cases kept
    exact (whole_called (d.get "id") (fresh ▸ spared fit) _).1
  | _ =>
    cases kept
    exact lowered.symm

/-- No import can be made for what is left of several declarators, unless one of their factories was
named `require`. -/
theorem whole_declarators {ds : List Tree} {p : Progress}
    (spared : Text.ofString "require" ∉ freshNames p.names.bound
      (factoryBases s ((ds.filter Tree.takesFactory).map fun d => (d.get "id").name))) :
    ∀ left ∈ (declarators s ds p).1.filterMap Fate.declarator?, left.isLowered = false := by
  -- Induction over the declarators: the names bound grow by the factories named so far.
  induction ds generalizing p with
  | nil => simp [declarators]
  | cons d rest ih =>
    rw [factoryBases_cons, freshNames_append, List.mem_append, not_or] at spared
    have bound : (declarator s d p).2.names.bound = p.names.bound ++ freshNames p.names.bound
        (if d.takesFactory then [(d.get "id").name ++ s.factorySuffix] else []) := by
      rw [names_declarator]
      rfl
    rw [← bound] at spared
    simp only [declarators, List.filterMap_cons]
    split
    · exact ih spared.2
    · rename_i left kept
      refine List.forall_mem_cons.mpr ⟨whole_declarator (fun takes named => ?_) kept, ih spared.2⟩
      rw [if_pos takes] at spared
      exact spared.1 (by simp [freshNames, named])

/-- An import can be lifted where it stands. -/
theorem ImportsFrom.isStanding {target : Tree} (imports : ImportsFrom target u) (place : Region) :
    (u.anchor place).IsStanding := by
  cases imports <;> exact @isStanding_of_isA _ "ImportDeclaration" rfl (by decide) (by decide) rfl

/-- What takes the place of a declaration can be lifted again, unless a factory of it was named
`require`. -/
theorem isStanding_declaration {p : Progress} (isDeclaration : t.isA "VariableDeclaration")
    (standing : t.IsStanding)
    (spared : Text.ofString "require" ∉ freshNames p.names.bound (factoryBases s t.factoryNames)) :
    ∀ u ∈ (declaration s t p).1, u.IsStanding := by
  have each := declarators_become s (t.get "declarations").items p
  rw [Tree.factoryNames, if_pos isDeclaration] at spared
  have whole := whole_declarators spared
  simp only [declaration_eq]
  generalize (declarators s (t.get "declarations").items p).1 = fates at each whole ⊢
  by_cases none : fates.filterMap Fate.statement? = []
  · rw [assemble_whole none, List.forall_mem_singleton]
    split
    · exact isStanding_comment standing _
    · exact standing
  · rw [assemble_eq none]
    intro u held
    obtain ⟨v, member, place, rfl⟩ := mem_anchorAll held
    have placed : (v.anchor place).region?.isSome := by
      rw [Tree.region?_anchor (isNode_of_mem_divided each member)]
      rfl
    rcases List.mem_append.mp member with imported | left
    · -- Imports are made of declarators.
      obtain ⟨target, imports⟩ := exists_importsFrom each imported
      exact imports.isStanding place
    · -- What is left has no declarator that an import can be made for.
      obtain rfl := eq_of_mem_remainder left
      refine isStanding_of_whole ?_ ?_ placed
      · split <;> rfl
      · split <;> exact whole

/-- What takes the place of an expression statement can be lifted again. -/
theorem isStanding_expressionStatement (standing : t.IsStanding) (p : Progress) :
    ∀ u ∈ (expressionStatement s t p).1, u.IsStanding := by
  -- What is put in is an import or an export, and has its place.
  have step := expressionStatement_step s t p
  generalize expressionStatement s t p = result at step ⊢
  cases step with
  | dynamic => exact List.forall_mem_singleton.mpr (isStanding_comment standing _)
  | loaded =>
    exact List.forall_mem_singleton.mpr
      (@isStanding_of_isA _ "ImportDeclaration" rfl (by decide) (by decide) rfl)
  | exported =>
    intro u held
    obtain ⟨v, member, place, rfl⟩ := mem_anchorAll held
    rcases eq_of_mem_exports member with rfl | rfl
    · exact @isStanding_of_isA _ "ExportNamedDeclaration" rfl (by decide) (by decide) rfl
    · exact @isStanding_of_isA _ "ExportDefaultDeclaration" rfl (by decide) (by decide) rfl
  | _ => exact List.forall_mem_singleton.mpr standing

/-- What a statement becomes can be lifted again, unless a factory of it was named `require`. -/
theorem isStanding_step {p : Progress} (standing : t.IsStanding)
    (spared : Text.ofString "require" ∉ freshNames p.names.bound (factoryBases s t.factoryNames)) :
    ∀ u ∈ (step s t p).1, u.IsStanding := by
  -- The comments come first, then lifting goes by the kind of the statement.
  change ∀ u ∈ (statement s (t.annotate s.marker false).1
    ((p.mention t.mentions).reportAll t.buriedDiagnostics)).1, u.IsStanding
  have commented := isStanding_annotate standing s.marker
  rw [statement_eq]
  split
  · refine isStanding_declaration ‹_› commented ?_
    rwa [factoryNames_annotate, bound_noted]
  · split
    · exact isStanding_expressionStatement commented _
    · exact List.forall_mem_singleton.mpr commented

/-- A new body can be lifted again, unless a factory was named `require`. -/
theorem isStanding_steps {ts : List Tree} {p : Progress} (standing : ∀ t ∈ ts, t.IsStanding)
    (spared : Text.ofString "require" ∉
      freshNames p.names.bound (factoryBases s (ts.flatMap Tree.factoryNames))) :
    ∀ u ∈ (steps s ts p).1, u.IsStanding := by
  induction ts generalizing p with
  | nil => exact List.forall_mem_nil _
  | cons t rest ih =>
    -- A later factory is named apart from those of the statements before it.
    rw [List.flatMap_cons, factoryBases, List.map_append, freshNames_append, List.mem_append,
      not_or] at spared
    refine List.forall_mem_append.mpr ⟨?_, ?_⟩
    · exact isStanding_step (standing t List.mem_cons_self) spared.1
    · have later := @ih (step s t p).2.2 fun u held => standing u (List.mem_cons_of_mem _ held)
      rw [bound_step] at later
      exact later spared.2

/-- The definitions put before a body can be lifted again. -/
theorem isStanding_opening (names : Polyfill) (body : List Tree) :
    ∀ u ∈ opening names body, u.IsStanding := by
  -- The two constants call helpers, and `require` ends in the name of neither.
  have constant (name : Text) {callee : Text} (other : callee ≠ "require") (arguments : List Tree)
      (place : Region) :
      ((Polyfill.constant name (.call (.identifier callee) arguments)).anchor place).IsStanding :=
    isStanding_of_whole rfl
      (List.forall_mem_singleton.mpr (whole_called (.identifier name) other arguments).1) rfl
  refine List.forall_mem_map.mpr fun t held => ?_
  rcases mem_polyfill held with ⟨_, _, _, rfl⟩ | ⟨name, rfl⟩ | ⟨name, rfl⟩
  · exact @isStanding_of_isA _ "ImportDeclaration" rfl (by decide) (by decide) rfl
  · exact constant name (Polyfill.ne_toPathName (by decide)).symm _ _
  · exact constant name (Polyfill.ne_parentName (by decide)).symm _ _

end Outputs

/-- What comes of a program can be lifted again, unless one of its factories was named `require`. -/
theorem isStanding_lift {s : Surroundings} {program : Tree} {lifted : Lifted}
    (standing : ∀ t ∈ (program.get "body").items, t.IsStanding)
    (spared : Text.ofString "require" ∉ factories s program)
    (known : lift s program = .ok lifted) :
    ∀ u ∈ (lifted.program.get "body").items, u.IsStanding := by
  -- The new body is the definitions put before it and what the statements became.
  obtain ⟨_, _, items⟩ := program_of_lift s known
  rw [items]
  exact List.forall_mem_append.mpr
    ⟨isStanding_opening _ _, isStanding_steps standing spared⟩

/-- No factory is named `require` where the suffix of factories is no end of it. -/
theorem require_not_mem_factories {s : Surroundings}
    (suffix : ¬s.factorySuffix <:+ Text.ofString "require") (program : Tree) :
    Text.ofString "require" ∉ factories s program := by
  -- A fresh name ends in what it is made of, and that ends in the suffix.
  intro chosen
  obtain ⟨base, held, ends⟩ := exists_suffix_of_mem_freshNames chosen
  obtain ⟨name, _, rfl⟩ := List.mem_map.mp held
  exact suffix ((List.suffix_append _ _).trans ends)

end Lift

end ModuleLift
