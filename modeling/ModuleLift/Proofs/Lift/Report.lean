import ModuleLift.Proofs.Lift.Outcome
import ModuleLift.Proofs.Tree.Bare

/-! Which of the calls of `require` that stay are reported: one report for each of them, in the
order of the statements. -/

namespace ModuleLift

/-- Whether a notice is about a call of `require` that stays with a comment before it. -/
def Notice.isMarked : Notice → Bool
  | .nestedRequire => true
  | .dynamicDeclaration => true
  | .dynamicStatement => true
  | _ => false

namespace Tree

/-- The argument of `require` in a bare tree is the bare argument. -/
theorem requireArgument?_bare (t : Tree) :
    Loader.requireArgument? t.bare = (Loader.requireArgument? t).map bare := by
  -- Kinds, names and the number of arguments are those of the tree.
  simp only [Loader.requireArgument?, isA_bare, get_bare, isNamed_bare, items_bare]
  split
  · -- Whether there is one argument is told by the bare ones.
    cases (t.get "arguments").items with
    | nil => rfl
    | cons argument rest =>
      cases rest with
      | nil =>
        simp only [List.map_cons, List.map_nil, isA_bare]
        split <;> rfl
      | cons second more => rfl
  · rfl

/-- Around a call of `require` only a string literal is recognized, so what is no string literal is
the argument of the call that the expression itself is. -/
theorem loadsDynamically_eq (t : Tree) :
    t.loadsDynamically = (Loader.requireArgument? t).any fun argument =>
      argument.stringValue?.isNone := by
  -- Inside a factory or a member only a string literal is recognized at all.
  have outer (inner : Tree) (loader : Tree → Loader) (target : ∀ a, (loader a).target = a) :
      (((Loader.staticArgument? inner).map loader).any fun l => l.module?.isNone) = false := by
    cases found : Loader.staticArgument? inner with
    | none => rfl
    | some argument =>
      rw [Loader.staticArgument?, Option.filter_eq_some_iff] at found
      simpa [Loader.module?, target] using found.2
  rw [loadsDynamically, Loader.classify]
  split
  · cases found : Loader.requireArgument? t with
    | some argument => rfl
    | none => exact outer _ _ fun _ => rfl
  · rename_i noCall
    have none : Loader.requireArgument? t = none := by simp [Loader.requireArgument?, noCall]
    rw [none]
    split
    · split
      · exact outer _ _ fun _ => rfl
      · rfl
    · rfl

/-- Whether an expression is such a call is told by the bare tree. -/
@[simp] theorem loadsDynamically_bare (t : Tree) :
    t.bare.loadsDynamically = t.loadsDynamically := by
  -- The argument of `require` is told by the bare tree.
  rw [loadsDynamically_eq, loadsDynamically_eq, requireArgument?_bare, Option.any_map]
  simp

/-- The reports on a top-level statement with calls of `require` whose argument is no string
literal. -/
def dynamicReports (t : Tree) : List Diagnostic :=
  -- A declaration is reported once for each such declarator, but commented once.
  if t.isA "VariableDeclaration" then
    ((t.get "declarations").items.filter fun d => (d.get "init").loadsDynamically).map
      (Diagnostic.about .dynamicDeclaration)
  else if t.isA "ExpressionStatement" && (t.get "expression").loadsDynamically then
    [.about .dynamicStatement t]
  else []

/-- There are such reports if and only if there are such calls. -/
theorem isEmpty_dynamicReports (t : Tree) : t.dynamicReports.isEmpty = !t.isDynamicLoad := by
  -- Both ask whether there is such a call among those of the statement.
  rw [dynamicReports, isDynamicLoad]
  split
  · rw [Bool.eq_iff_iff]
    simp
  · cases t.isA "ExpressionStatement" <;> cases (t.get "expression").loadsDynamically <;> rfl

/-- A report on a bare node is the report on the node. -/
theorem about_bare (notice : Notice) (t : Tree) :
    Diagnostic.about notice t.bare = Diagnostic.about notice t := by
  rw [Diagnostic.about, mark_bare, Diagnostic.about, Mark.bare]

/-- The reports on a statement are told by the bare tree. -/
theorem dynamicReports_bare (t : Tree) : t.bare.dynamicReports = t.dynamicReports := by
  -- Declarators are selected and reported alike in both trees.
  simp only [dynamicReports, isA_bare, get_bare, items_bare, loadsDynamically_bare, about_bare,
    List.filter_map, List.map_map, Function.comp_def]

end Tree

namespace Progress

/-- The reports on calls of `require` that stay. -/
def staying (p : Progress) : List Diagnostic := p.diagnostics.filter fun d => d.notice.isMarked

/-- A report is one more if it is on such a call. -/
theorem staying_report (p : Progress) (notice : Notice) (t : Tree) :
    (p.report notice t).staying =
      p.staying ++ if notice.isMarked then [.about notice t] else [] := by
  -- It is added at the end.
  rw [staying, report, List.filter_append, List.filter_cons, List.filter_nil]
  rfl

/-- Several reports are added if they are on such calls. -/
theorem staying_reportAll (p : Progress) (more : List Diagnostic) :
    (p.reportAll more).staying = p.staying ++ more.filter fun d => d.notice.isMarked := by
  -- They are added at the end.
  rw [staying, reportAll, List.filter_append]
  rfl

/-- Mentions are no reports. -/
@[simp] theorem staying_mention (p : Progress) (names : List Text) :
    (p.mention names).staying = p.staying := rfl

/-- Taking a name is no report. -/
@[simp] theorem staying_take (p : Progress) (name : Text) :
    (p.take name).staying = p.staying := rfl

/-- Completing a specifier reports no such call. -/
theorem staying_noteResolved (p : Progress) (resolved : Specifier.Resolved) (target : Tree)
    (module : Text) : (p.noteResolved resolved target module).staying = p.staying := by
  -- A file that is missing is reported, but not as a call that stays.
  rw [noteResolved_eq, staying, List.filter_append]
  split <;> exact List.append_nil _

end Progress

namespace Lift

open Progress

variable (s : Surroundings)

/-- A new import is no report on a call that stays. -/
theorem staying_importSource (target : Tree) (module : Text) (p : Progress) :
    (importSource s target module p).2.staying = p.staying :=
  staying_noteResolved ..

/-- A declarator with a call whose argument is no string literal is reported. -/
theorem staying_declarator (d : Tree) (p : Progress) :
    (declarator s d p).2.staying = p.staying ++
      if (d.get "init").loadsDynamically then [.about .dynamicDeclaration d] else [] := by
  rw [Tree.loadsDynamically]
  have step := declarator_step s d p
  generalize declarator s d p = result at step ⊢
  cases step with
  | uncalled uncalled => simp [uncalled]
  | dynamic called unnamed => simp [called, unnamed, staying_report, Notice.isMarked]
  | refused called named =>
    -- A target that no import can bind is reported under other notices.
    have other : (d.get "id").refusal.isMarked = false := by
      rw [Tree.refusal]
      split <;> rfl
    simp [called, named, staying_report, other]
  | imported called named => simpa [called, named] using staying_importSource ..
  | factored called named =>
    simpa [called, Loader.module?, Loader.target, named] using staying_importSource ..

/-- The declarators are reported in order. -/
theorem staying_declarators (ds : List Tree) (p : Progress) :
    (declarators s ds p).2.staying = p.staying ++
      (ds.filter fun d => (d.get "init").loadsDynamically).map
        (Diagnostic.about .dynamicDeclaration) := by
  -- Each declarator adds its own report behind those before it.
  induction ds generalizing p with
  | nil => simp [declarators]
  | cons d rest ih =>
    simp only [declarators]
    rw [ih, staying_declarator, List.append_assoc, List.filter_cons]
    split <;> rfl

/-- An expression statement that is a call whose argument is no string literal is reported. -/
theorem staying_expressionStatement (t : Tree) (p : Progress) :
    (expressionStatement s t p).2.staying = p.staying ++
      if (t.get "expression").loadsDynamically then [.about .dynamicStatement t] else [] := by
  rw [Tree.loadsDynamically]
  have step := expressionStatement_step s t p
  generalize expressionStatement s t p = result at step ⊢
  cases step with
  | dynamic called unnamed => simp [called, unnamed, staying_report, Notice.isMarked]
  | loaded called named =>
    simpa [called, Loader.module?, Loader.target, named] using staying_importSource ..
  | discarded called named => simp [called, named]
  | idle uncalled => simp [uncalled]
  -- None of the notices on exports is about a call that stays.
  | refused uncalled assigned refused =>
    rcases Tree.notice_exportsRefusal refused with rfl | rfl | rfl <;>
      simp [uncalled, staying_report, Notice.isMarked]
  | exported uncalled =>
    rw [staying_reportAll, unboundExports, List.filter_map]
    simp [uncalled, Function.comp_def, Diagnostic.about, Notice.isMarked, staying]

/-- A top-level statement is reported for each such call in it. -/
theorem staying_statement (t : Tree) (p : Progress) :
    (statement s t p).2.staying = p.staying ++ t.dynamicReports := by
  -- Both split by the kind of the statement, in the same order.
  rw [statement_eq, Tree.dynamicReports]
  split
  · exact staying_declarators ..
  · split
    · rename_i isExpression
      rw [isExpression, Bool.true_and]
      exact staying_expressionStatement ..
    · rename_i other
      simp [other]

/-- One statement: what lies below it is reported first, then the statement itself. -/
theorem staying_step (t : Tree) (p : Progress) :
    (step s t p).2.2.staying = p.staying ++ (t.buriedDiagnostics ++ t.dynamicReports) := by
  -- Commenting does not change where a node starts, so the reports are those on the tree as read.
  have below : t.buriedDiagnostics.filter (fun d => d.notice.isMarked) = t.buriedDiagnostics := by
    rw [List.filter_eq_self, Tree.buriedDiagnostics, List.forall_mem_map]
    exact fun _ _ => rfl
  have same : (t.annotate s.marker false).1.dynamicReports = t.dynamicReports := by
    rw [← Tree.dynamicReports_bare, Tree.bare_annotate, Tree.dynamicReports_bare]
  simp only [step]
  rw [staying_statement, staying_reportAll, staying_mention, below, same, List.append_assoc]

/-- The statements are reported in order. -/
theorem staying_steps (ts : List Tree) (p : Progress) :
    (steps s ts p).2.2.staying =
      p.staying ++ ts.flatMap fun t => t.buriedDiagnostics ++ t.dynamicReports := by
  -- Each statement appends to what the statements before it reported.
  induction ts generalizing p with
  | nil => simp [steps]
  | cons t rest ih =>
    simp only [steps]
    rw [ih, staying_step, List.flatMap_cons, List.append_assoc]

end Lift

end ModuleLift
