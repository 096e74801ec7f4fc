import ModuleLift.Proofs.Lift.Recognition

/-! When lifting fails: exactly if a statement that something takes the place of was not read, or if
definitions are to be put before a statement that stands for no text. Nothing else matters for
that, and in particular no file. -/

namespace ModuleLift

namespace Loader

variable {loader : Loader}

/-- Whether it is `require` with a string literal and nothing around it. -/
def isDirect : Loader → Bool
  | .plain target => target.stringValue?.isSome
  | _ => false

/-- Whether a load is direct is told by the skeleton. -/
@[simp] theorem isDirect_skeleton (loader : Loader) :
    loader.skeleton.isDirect = loader.isDirect := by
  cases loader <;> simp [skeleton, isDirect]

/-- A factory or a member is no direct load. -/
theorem isDirect_of_indirect (indirect : ∀ target, loader ≠ .plain target) :
    loader.isDirect = false := by
  -- Only a plain call can be direct.
  cases loader with
  | plain target => exact absurd rfl (indirect target)
  | _ => rfl

/-- A call that names no module is no direct load. -/
theorem isDirect_of_unnamed (unnamed : loader.module? = none) : loader.isDirect = false := by
  -- A direct load has a string literal for its module.
  cases loader with
  | plain target => exact Option.isSome_eq_false_iff.mpr (Option.isNone_iff_eq_none.mpr unnamed)
  | _ => rfl

end Loader

namespace Tree

/-- Whether imports take the place of a statement, or of parts of it. -/
def isReplaced (t : Tree) : Bool :=
  if t.isA "VariableDeclaration" then (t.get "declarations").items.any isLowered
  else if t.isA "ExpressionStatement" then
    (Loader.classify (t.get "expression")).any Loader.isDirect
  else false

/-- Marks do not tell whether imports take the place of a statement. -/
@[simp] theorem isReplaced_mapMark (t : Tree) (change : Mark → Mark) :
    (t.mapMark change).isReplaced = t.isReplaced := by
  simp [isReplaced]

/-- Marks do not tell whether a statement yields exports. -/
@[simp] theorem yieldsExports_mapMark (t : Tree) (change : Mark → Mark) :
    (t.mapMark change).yieldsExports = t.yieldsExports := by
  simp [yieldsExports, Lift.exportsValue?]

/-- Comments below a statement do not change whether imports take its place. -/
@[simp] theorem isReplaced_annotate (marker : Text) (t : Tree) :
    (t.annotate marker false).1.isReplaced = t.isReplaced := by
  -- The question is answered by the skeleton, which comments leave as it is.
  have same (t : Tree) : t.skeleton.isReplaced = t.isReplaced := by
    simp [isReplaced, Loader.classify_skeleton, Option.any_map, Function.comp_def]
  rw [← same, skeleton_annotate, same]

/-- Only an expression statement yields exports. -/
theorem yieldsExports_of_isA {t : Tree} {kind : String} (isA : t.isA kind)
    (other : kind ≠ "ExpressionStatement") : t.yieldsExports = false := by
  rw [yieldsExports, isA_eq_false isA other, Bool.false_and]

/-- A statement yields exports if its value is of the right kind. -/
theorem yieldsExports_of_assigned {t value : Tree} (isExpression : t.isA "ExpressionStatement")
    (assigned : Lift.exportsValue? t = some value) :
    t.yieldsExports = (value.isA "ObjectExpression" && (ExportMap.ofObject? value).isSome) := by
  -- The kind of the statement and its value are known.
  rw [yieldsExports, isExpression, assigned]
  rfl

end Tree

namespace Lift

/-- An assignment to `module.exports` is no call of `require`. -/
theorem classify_of_exportsValue {t value : Tree} (assigned : exportsValue? t = some value) :
    Loader.classify (t.get "expression") = none := by
  -- An assignment is neither a call nor a member.
  obtain ⟨isAssignment, _⟩ := assigns_of_exportsValue assigned
  simp [Loader.classify, Tree.isA_eq_false isAssignment (show _ ≠ "CallExpression" by decide),
    Tree.isA_eq_false isAssignment (show _ ≠ "MemberExpression" by decide)]

/-- A call of `require` yields no exports. -/
theorem yieldsExports_of_called {t : Tree} {loader : Loader}
    (called : Loader.classify (t.get "expression") = some loader) : t.yieldsExports = false := by
  -- What is a call is no assignment.
  cases assigned : exportsValue? t with
  | none => simp [Tree.yieldsExports, assigned]
  | some value => simp [classify_of_exportsValue assigned] at called

section Exported

variable (s : Surroundings)

/-- No declarator makes exports, whatever becomes of it. -/
theorem exported_declarator (d : Tree) (p : Progress) :
    (declarator s d p).2.exported = p.exported := by
  -- Only new imports change what was noted, and they do not touch exports.
  have step := declarator_step s d p
  generalize declarator s d p = result at step ⊢
  cases step with
  | imported => exact exported_importSource ..
  | factored => exact exported_importSource ..
  | _ => rfl

/-- Nor do several of them. -/
theorem exported_declarators (ds : List Tree) (p : Progress) :
    (declarators s ds p).2.exported = p.exported := by
  -- The induction carries what was noted from one declarator to the next.
  induction ds generalizing p with
  | nil => rfl
  | cons d rest ih =>
    simp only [declarators]
    rw [ih, exported_declarator]

/-- An expression statement makes exports if it yields some. -/
theorem exported_expressionStatement {t : Tree} (isExpression : t.isA "ExpressionStatement")
    (p : Progress) :
    (expressionStatement s t p).2.exported = (p.exported || t.yieldsExports) := by
  have step := expressionStatement_step s t p
  generalize expressionStatement s t p = result at step ⊢
  cases step with
  | dynamic called => simp [yieldsExports_of_called called, Progress.report]
  | loaded called => simp [yieldsExports_of_called called, exported_importSource]
  | discarded called => simp [yieldsExports_of_called called]
  | idle uncalled unassigned => simp [Tree.yieldsExports, unassigned]
  | @refused value notice uncalled assigned refused =>
    -- A value that is fit for exports is refused only if some were made before.
    rw [Tree.yieldsExports_of_assigned isExpression assigned]
    cases before : p.exported with
    | true => exact before
    | false =>
      refine before.trans (Eq.symm (Bool.eq_false_iff.mpr fun fit => ?_))
      rw [Tree.exportsRefusal?_eq_none.mpr ⟨fit, before⟩] at refused
      cases refused
  | exported uncalled assigned object found first =>
    simp [Tree.yieldsExports_of_assigned isExpression assigned, object, found, Progress.reportAll]

/-- A top-level statement makes exports if it yields some. -/
theorem exported_statement (t : Tree) (p : Progress) :
    (statement s t p).2.exported = (p.exported || t.yieldsExports) := by
  -- Only an expression statement can yield exports.
  rw [statement_eq]
  split
  · rename_i isDeclaration
    rw [Tree.yieldsExports_of_isA isDeclaration (by decide), Bool.or_false]
    exact exported_declarators s _ p
  · split
    · exact exported_expressionStatement s ‹_› p
    · rename_i noExpression
      simp [Tree.yieldsExports, noExpression]

/-- Going through a statement makes exports if it yields some. -/
theorem exported_step (t : Tree) (p : Progress) :
    (step s t p).2.2.exported = (p.exported || t.yieldsExports) := by
  -- Commenting comes first and changes neither side.
  have made := exported_statement s (t.annotate s.marker false).1
    ((p.mention t.mentions).reportAll t.buriedDiagnostics)
  rwa [Tree.yieldsExports_annotate] at made

end Exported

/-- Whether something takes the place of a statement, where exports were made before or not. -/
def takesPlace (exported : Bool) (t : Tree) : Bool :=
  t.isReplaced || t.yieldsExports && !exported

section Needs

variable (s : Surroundings) {t : Tree}

/-- An import is made for a declarator exactly if it is lowered. -/
theorem isSome_statement_declarator (d : Tree) (p : Progress) :
    (declarator s d p).1.statement?.isSome = d.isLowered := by
  -- Each way to deal with a declarator says what the declarator is like.
  have step := declarator_step s d p
  generalize declarator s d p = result at step ⊢
  cases step with
  | uncalled uncalled => exact (Tree.isLowered_of_uncalled uncalled).symm
  | dynamic called unnamed => exact (Tree.isLowered_of_unnamed called unnamed).symm
  | refused called named unfit => exact unfit.symm
  | imported called named fit => simp [Fate.statement?, Tree.isLowered, fit]
  | factored called named fit => simp [Fate.statement?, Tree.isLowered, fit]

/-- Imports are made for some declarators exactly if one of them is lowered. -/
theorem any_statement_declarators (ds : List Tree) (p : Progress) :
    (declarators s ds p).1.any (fun fate => fate.statement?.isSome) = ds.any Tree.isLowered := by
  -- Whether an import is made does not depend on what was noted before.
  induction ds generalizing p with
  | nil => rfl
  | cons d rest ih =>
    simp only [declarators, List.any_cons]
    rw [isSome_statement_declarator, ih]

/-- A place is needed for a declaration if an import is made for a declarator. -/
theorem needsPlace_replaceDeclaration (isDeclaration : t.isA "VariableDeclaration")
    (p : Progress) : (replaceDeclaration s t p).1.needsPlace = t.isReplaced := by
  -- Without imports the declaration is kept; with imports it is replaced.
  rw [Tree.isReplaced, if_pos isDeclaration, ← any_statement_declarators s _ p]
  simp only [replaceDeclaration, joinFates]
  generalize (declarators s (t.get "declarations").items p).1 = fates
  split
  · rename_i none
    have each := List.filterMap_eq_nil_iff.mp (List.isEmpty_iff.mp none)
    exact (List.any_eq_false.mpr fun fate held => by simp [each fate held]).symm
  · rename_i some
    obtain ⟨u, held⟩ := List.exists_mem_of_ne_nil _ (mt List.isEmpty_iff.mpr some)
    obtain ⟨fate, member, made⟩ := List.mem_filterMap.mp held
    exact (List.any_eq_true.mpr ⟨fate, member, by simp [made]⟩).symm

/-- A place is needed for an expression statement if it is an import or makes exports. -/
theorem needsPlace_replaceExpression (isExpression : t.isA "ExpressionStatement")
    (p : Progress) : (replaceExpression s t p).1.needsPlace = takesPlace p.exported t := by
  have other := Tree.isA_eq_false isExpression (show _ ≠ "VariableDeclaration" by decide)
  have replaced : t.isReplaced = (Loader.classify (t.get "expression")).any Loader.isDirect := by
    simp [Tree.isReplaced, other, isExpression]
  rw [takesPlace, replaced, replaceExpression]
  cases called : Loader.classify (t.get "expression") with
  | some loader =>
    rw [yieldsExports_of_called called, Option.any_some, Bool.false_and, Bool.or_false]
    cases named : loader.module? with
    | none => simp [named, Loader.isDirect_of_unnamed named, Replacement.needsPlace]
    | some module =>
      cases loader with
      | plain target =>
        have literal : target.stringValue?.isSome := Option.isSome_of_eq_some named
        simp [named, Loader.isDirect, literal, Replacement.needsPlace]
      | _ => simp [named, Loader.isDirect, Replacement.needsPlace]
  | none =>
    rw [Option.any_none, Bool.false_or]
    cases assigned : exportsValue? t with
    | none => simp [Tree.yieldsExports, assigned, Replacement.needsPlace]
    | some value =>
      -- The value is asked the same questions on both sides.
      rw [Tree.yieldsExports_of_assigned isExpression assigned]
      simp only [replaceExports]
      cases object : value.isA "ObjectExpression" with
      | false => simp [Replacement.needsPlace]
      | true =>
        cases found : ExportMap.ofObject? value with
        | none => simp [Replacement.needsPlace]
        | some entries => cases p.exported <;> simp [Replacement.needsPlace]

/-- A place is needed for a statement if something takes it. -/
theorem needsPlace_replaceStatement (t : Tree) (p : Progress) :
    (replaceStatement s t p).1.needsPlace = takesPlace p.exported t := by
  -- Only declarations and expression statements can be replaced.
  rw [replaceStatement]
  split
  · rename_i isDeclaration
    rw [needsPlace_replaceDeclaration s isDeclaration, takesPlace,
      Tree.yieldsExports_of_isA isDeclaration (by decide), Bool.false_and, Bool.or_false]
  · rename_i noDeclaration
    split
    · exact needsPlace_replaceExpression s ‹_› p
    · rename_i noExpression
      simp [takesPlace, Tree.isReplaced, Tree.yieldsExports, noDeclaration, noExpression,
        Replacement.needsPlace]

/-- An assignment to `module.exports` that stays does so as it is. -/
theorem eq_of_kept_exports {value u : Tree} {p : Progress}
    (kept : (replaceExports t value p).1 = .kept u) : u = t := by
  -- Three ways lead to keeping the statement, and one to replacing it.
  rw [replaceExports] at kept
  split at kept
  · exact (Replacement.kept.inj kept).symm
  · split at kept
    · exact (Replacement.kept.inj kept).symm
    · split at kept
      · exact (Replacement.kept.inj kept).symm
      · cases kept

/-- An expression statement that stays does so as it is, or with a comment. -/
theorem eq_of_kept_expression {u : Tree} {p : Progress}
    (kept : (replaceExpression s t p).1 = .kept u) : u = t ∨ u = t.comment s.marker := by
  -- A comment is added to a call that names no module.
  rw [replaceExpression] at kept
  split at kept
  · split at kept
    · exact .inr (Replacement.kept.inj kept).symm
    · split at kept
      · cases kept
      · exact .inl (Replacement.kept.inj kept).symm
  · split at kept
    · exact .inl (eq_of_kept_exports kept)
    · exact .inl (Replacement.kept.inj kept).symm

/-- A statement that stays does so as it is, or with a comment. -/
theorem eq_of_kept {u : Tree} {p : Progress} (kept : (replaceStatement s t p).1 = .kept u) :
    u = t ∨ u = t.comment s.marker := by
  -- A declaration is kept if no import is made, with a comment if a call stays in it.
  rw [replaceStatement] at kept
  split at kept
  · simp only [replaceDeclaration, joinFates] at kept
    split at kept
    · have same := Replacement.kept.inj kept
      split at same
      · exact .inr same.symm
      · exact .inl same.symm
    · cases kept
  · split at kept
    · exact eq_of_kept_expression s kept
    · exact .inl (Replacement.kept.inj kept).symm

end Needs

/-- Whether every statement that something takes the place of was read, where exports were made
before or not. -/
def sitedAll (exported : Bool) : List Tree → Bool
  | [] => true
  | t :: rest =>
    (t.range?.isSome || !takesPlace exported t) && sitedAll (exported || t.yieldsExports) rest

section Success

variable (s : Surroundings)

/-- Comments below a statement do not change whether something takes its place. -/
theorem takesPlace_annotate (exported : Bool) (t : Tree) :
    takesPlace exported (t.annotate s.marker false).1 = takesPlace exported t := by
  rw [takesPlace, takesPlace, Tree.isReplaced_annotate, Tree.yieldsExports_annotate]

/-- A body is gone through exactly if all that needs a place has one. -/
theorem visitBody_eq (ts : List Tree) (p : Progress) : visitBody s ts p =
    if sitedAll p.exported ts then .ok (steps s ts p) else .error .noRange := by
  -- Whether a statement needs a place depends on whether exports were made before it.
  induction ts generalizing p with
  | nil => rfl
  | cons t rest ih =>
    have here : visitStatement s t p = if t.range?.isSome || !takesPlace p.exported t then
        .ok (step s t p) else .error .noRange := by
      have before : ((p.mention t.mentions).reportAll t.buriedDiagnostics).exported = p.exported :=
        rfl
      rw [visitStatement_eq, needsPlace_replaceStatement, takesPlace_annotate, before]
      cases takesPlace p.exported t <;> cases t.range? <;> rfl
    rw [visitBody, here, sitedAll]
    cases t.range?.isSome || !takesPlace p.exported t with
    | false => rfl
    | true =>
      change (visitBody s rest (step s t p).2.2 >>= _) = _
      rw [ih, exported_step, Bool.true_and]
      split <;> rfl

/-- A new body starts somewhere exactly if the old one does. -/
theorem startsSomewhere_steps {ts : List Tree} {p : Progress} (sited : sitedAll p.exported ts) :
    startsSomewhere (steps s ts p).1 = startsSomewhere ts := by
  cases ts with
  | nil => rfl
  | cons t rest =>
    obtain ⟨here, _⟩ := Bool.and_eq_true_iff.mp sited
    have outcome := step_outcome s t p
    have made : (step s t p).1 = (replaceStatement s (t.annotate s.marker false).1
        ((p.mention t.mentions).reportAll t.buriedDiagnostics)).1.nodes
          (t.annotate s.marker false).1.readRegion := rfl
    have needs := needsPlace_replaceStatement s (t.annotate s.marker false).1
      ((p.mention t.mentions).reportAll t.buriedDiagnostics)
    rw [takesPlace_annotate] at needs
    change startsSomewhere ((step s t p).1 ++ (steps s rest (step s t p).2.2).1) = _
    cases replacement : (replaceStatement s (t.annotate s.marker false).1
        ((p.mention t.mentions).reportAll t.buriedDiagnostics)).1 with
    | kept u =>
      -- What stays has the place it had.
      have same : u.region? = t.region? := by
        rcases eq_of_kept s replacement with rfl | rfl
        · exact Tree.region?_annotate ..
        · rw [Tree.region?_comment, Tree.region?_annotate]
      rw [made, replacement]
      exact congrArg Option.isSome same
    | replaced added =>
      -- What is put in has the place of what was read.
      rw [replacement] at needs
      have taken : takesPlace p.exported t := needs.symm
      have read : t.range?.isSome := by simpa [taken] using here
      have stands := region?_of_ranged read
      have placed := outcome.placed (by rwa [Tree.region?_annotate])
      obtain ⟨first, others, split⟩ := List.exists_cons_of_ne_nil outcome.ne_nil
      rw [split]
      exact (placed first (by simp [split])).trans stands.symm

/-- Exactly when a program is lifted, and what comes of it then. -/
theorem liftWith_eq (ledger : Ledger) (program : Tree) : liftWith ledger s program =
    if program.isA "Program" then
      if sitedAll false (program.get "body").items &&
          ((steps s (program.get "body").items (.ofLedger ledger)).2.2.names.statements.isEmpty ||
            startsSomewhere (program.get "body").items) then
        .ok (liftedOf ledger s program)
      else .error .noRange
    else .error (.noProgram program.mark.spot) := by
  -- The body is gone through first; then a place may be needed for the definitions.
  rw [liftWith]
  split
  · rw [visitBody_eq]
    cases sited : sitedAll (Progress.ofLedger ledger).exported (program.get "body").items with
    | false =>
      have none : sitedAll false (program.get "body").items = false := sited
      rw [none]
      rfl
    | true =>
      have all : sitedAll false (program.get "body").items = true := sited
      rw [all, if_pos rfl, ← startsSomewhere_steps s sited, Bool.true_and]
      change (prelude _ _ >>= _) = _
      rw [prelude_eq]
      split <;> rfl
  · rfl

end Success

end Lift

end ModuleLift
