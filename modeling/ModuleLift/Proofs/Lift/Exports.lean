import ModuleLift.Proofs.Lift.Record

/-! What becomes of the assignments to `module.exports`: the first that exports can be made of gives
them, and all others stay, each with one report. -/

namespace ModuleLift

/-- Whether a notice is on an assignment to `module.exports` that stays. -/
def Notice.isOnExports : Notice → Bool
  | .exportsNoObject => true
  | .exportsIrregular => true
  | .exportsRepeated => true
  | _ => false

namespace Diagnostic

/-- Whether a report is on an assignment to `module.exports` that stays. -/
def isOnExports (d : Diagnostic) : Bool := Text.startsWith "module.exports " d.text

/-- The notice tells whether a report is. -/
theorem isOnExports_eq (d : Diagnostic) : d.isOnExports = d.notice.isOnExports := by
  obtain ⟨notice, spot⟩ := d
  cases notice
  all_goals
    -- All other notices start with another letter; the texts are compared as lists.
    simp only [isOnExports, text, Notice.message, Text.startsWith, Text.ofString]
    repeat rw [String.toList_ofList]
    rfl

end Diagnostic

namespace Tree

section Value

variable {t value : Tree}

/-- The value assigned in a commented statement is the commented value. -/
theorem exportsValue?_annotate (marker : Text) (isExpression : t.isA "ExpressionStatement")
    (assigned : Lift.exportsValue? t = some value) :
    Lift.exportsValue? (t.annotate marker false).1 = some (value.annotate marker true).1 := by
  -- The assignment is entered, and so is its right side.
  have expression : (t.annotate marker false).1.get "expression" =
      ((t.get "expression").annotate marker true).1 := by
    cases t with
    | node kind mark fields =>
      obtain rfl : kind = some "ExpressionStatement" := beq_iff_eq.mp isExpression
      rw [get_annotate mark fields marker false rfl, if_pos (entersField_plain rfl (by decide))]
      rfl
    | _ => cases isExpression
  have same := exportsValue?_skeleton (t.annotate marker false).1
  rw [skeleton_annotate, exportsValue?_skeleton, assigned, Option.map_some] at same
  obtain ⟨other, found, _⟩ := Option.map_eq_some_iff.mp same.symm
  obtain ⟨isAssignment, _, rfl⟩ := Lift.assigns_of_exportsValue assigned
  obtain ⟨_, _, rfl⟩ := Lift.assigns_of_exportsValue found
  rw [found, expression]
  cases known : t.get "expression" with
  | node kind mark fields =>
    obtain rfl : kind = some "AssignmentExpression" := by
      rw [known] at isAssignment
      exact beq_iff_eq.mp isAssignment
    rw [get_annotate mark fields marker true rfl, if_pos (entersField_plain rfl (by decide))]
    rfl
  | _ =>
    rw [known] at isAssignment
    cases isAssignment

/-- The reports on an assignment that stays: the refusal alone. -/
theorem filter_exportsReports (exported : Bool) (topLevel : List Text) (t value : Tree) :
    (t.exportsReports exported topLevel value).filter Diagnostic.isOnExports =
      ((value.exportsRefusal? exported).map fun notice => Diagnostic.about notice t).toList := by
  rw [exportsReports]
  cases refused : value.exportsRefusal? exported with
  | some notice =>
    have onExports : (Diagnostic.about notice t).isOnExports := by
      rw [Diagnostic.isOnExports_eq, Diagnostic.about]
      rcases notice_exportsRefusal refused with rfl | rfl | rfl <;> rfl
    simp [onExports]
  | none =>
    -- What is left to report is on names that are not bound.
    refine List.filter_eq_nil_iff.mpr fun d held => ?_
    obtain ⟨pair, _, rfl⟩ := List.mem_map.mp held
    rw [Diagnostic.isOnExports_eq]
    exact Bool.false_ne_true

end Value

/-- Statements that assign nothing to `module.exports` are not reported for that. -/
theorem not_isOnExports_entries {exported : Bool} {topLevel : List Text} {t : Tree}
    {d : Diagnostic} (member : .report d ∈ t.entries exported topLevel)
    (other : t.isA "ExpressionStatement" → Lift.exportsValue? t = none) :
    d.isOnExports = false := by
  -- Such a report is on a call that stays, or on an assignment.
  have calls : ∀ notice ∈ stayingNotices, notice.isOnExports = false := by decide
  rw [Diagnostic.isOnExports_eq]
  rcases notice_entries member with staying | ⟨isExpression, value, assigned, _⟩
  · exact calls _ staying
  · simp [other isExpression] at assigned

end Tree

namespace Lift

namespace Page

variable {s : Surroundings} {topLevel : List Text} {exported : Bool} {page : Page} {value : Tree}

/-- Nothing that lies below a statement is reported as an assignment to `module.exports`. -/
theorem Filled.filter_reports (filled : page.Filled s topLevel exported) :
    (page.reports s).filter Diagnostic.isOnExports =
      ((page.statement.entries exported topLevel).flatMap (Noted.diagnostics s)).filter
        Diagnostic.isOnExports := by
  -- What is buried is reported as such.
  have below : page.statement.buriedDiagnostics.filter Diagnostic.isOnExports = [] := by
    refine List.filter_eq_nil_iff.mpr fun d held => ?_
    obtain ⟨_, _, rfl⟩ := List.mem_map.mp held
    rw [Diagnostic.isOnExports_eq]
    exact Bool.false_ne_true
  rw [reports, filled.recorded, List.flatMap_append, diagnostics_report, List.filter_append, below,
    List.nil_append]

/-- The report on an assignment. -/
theorem Filled.reports_assigned (filled : page.Filled s topLevel exported)
    (isExpression : page.statement.isA "ExpressionStatement")
    (assigned : exportsValue? page.statement = some value) :
    (page.reports s).filter Diagnostic.isOnExports =
      ((value.exportsRefusal? exported).map fun notice =>
        Diagnostic.about notice page.statement).toList := by
  -- The statement is an expression and no call, so its only reports are on its exports.
  rw [filled.filter_reports, Tree.entries, Tree.isA_eq_false isExpression (by decide),
    if_neg Bool.false_ne_true, if_pos isExpression, Tree.expressionEntries,
    classify_of_exportsValue assigned, assigned]
  simp only [diagnostics_report, Tree.filter_exportsReports]

/-- No other statement has such a report. -/
theorem Filled.reports_other (filled : page.Filled s topLevel exported)
    (other : page.statement.isA "ExpressionStatement" → exportsValue? page.statement = none) :
    (page.reports s).filter Diagnostic.isOnExports = [] := by
  -- Of the other reports, each is on a call that stays or on a missing module.
  rw [filled.filter_reports]
  refine List.filter_eq_nil_iff.mpr fun d held => ?_
  rw [Bool.not_eq_true]
  obtain ⟨entry, member, told⟩ := List.mem_flatMap.mp held
  cases entry with
  | report diagnostic =>
    rw [List.mem_singleton.mp told]
    exact Tree.not_isOnExports_entries member other
  | loaded load =>
    rw [Noted.diagnostics] at told
    split at told
    · rw [List.mem_singleton.mp told, Diagnostic.isOnExports_eq]
      rfl
    · cases told

/-- What an assignment becomes: exports, or the same statement. -/
theorem Filled.nodes_assigned (filled : page.Filled s topLevel exported)
    (isExpression : page.statement.isA "ExpressionStatement")
    (assigned : exportsValue? page.statement = some value) :
    if page.statement.yieldsExports && !exported then
      ∃ entries, ExportMap.ofObject? value = some entries ∧
        page.nodes = anchorAll page.statement.readRegion
          ((if entries.namedExports.isEmpty then [] else [.exportNamed entries.namedExports]) ++
            [.exportDefault (value.annotate s.marker true).1])
    else page.nodes = [(page.statement.annotate s.marker false).1] := by
  obtain ⟨p, earlier, lowered⟩ := filled.becomes
  have commented := Tree.exportsValue?_annotate s.marker isExpression assigned
  rw [← Tree.isA_annotate s.marker false] at isExpression
  have uncalled := classify_of_exportsValue commented
  have makes : makesExports p (page.statement.annotate s.marker false).1 =
      (page.statement.yieldsExports && !exported) := by
    rw [makesExports, Tree.yieldsExports_annotate, earlier]
  rw [← makes]
  generalize page.nodes = nodes at lowered
  -- An assignment calls nothing and declares nothing, so it is kept or exported.
  cases lowered with
  | kept _ idle =>
    rw [if_neg (by simp [idle]), isDynamicLoad_expression isExpression, Tree.loadsDynamically,
      uncalled]
    rfl
  | declared isDeclaration =>
    have other := Tree.isA_eq_false isDeclaration (show _ ≠ "ExpressionStatement" by decide)
    simp [other] at isExpression
  | loaded _ _ called => simp [uncalled] at called
  | exported _ made same object found =>
    rw [commented, Option.some.injEq] at same
    subst same
    have region : (page.statement.annotate s.marker false).1.readRegion =
        page.statement.readRegion := by
      rw [Tree.readRegion, ← Tree.range?_bare, Tree.bare_annotate, Tree.range?_bare]
      rfl
    rw [← ExportMap.ofObject?_skeleton, Tree.skeleton_annotate,
      ExportMap.ofObject?_skeleton] at found
    rw [if_pos made, region]
    exact ⟨_, found, rfl⟩

end Page

end Lift

open Lift in
/-- Of the top-level statements that assign to `module.exports`, the first that exports can be made
of becomes an export list, if it has names to list, and the default export of its value. Each other
one stays as it is, up to comments and flags, and has one report; what decides is only whether
exports were made before. -/
theorem exports_of_first (ledger : Ledger) (s : Surroundings) {program : Tree}
    (isProgram : program.isA "Program") :
    let body := (program.get "body").items
    (program.Ranged → ∃ lifted, liftWith ledger s program = .ok lifted) ∧
    ∀ lifted, liftWith ledger s program = .ok lifted → ∃ (names : Polyfill) (pages : List Page),
      pages.map Page.statement = body ∧ pages.map Page.nodes = outputs s body (.ofLedger ledger) ∧
      (lifted.program.get "body").items =
        opening names (pages.flatMap Page.nodes) ++ pages.flatMap Page.nodes ∧
      lifted.diagnostics = pages.flatMap (Page.reports s) ∧
      (∀ page ∈ pages,
        (page.statement.isA "ExpressionStatement" → exportsValue? page.statement = none) →
        (page.reports s).filter Diagnostic.isOnExports = []) ∧
      ∀ before page after value, pages = before ++ page :: after →
        page.statement.isA "ExpressionStatement" → exportsValue? page.statement = some value →
        let first := page.statement.yieldsExports ∧
          ∀ earlier ∈ before, earlier.statement.yieldsExports = false
        (first → ∃ entries literal, value.isA "ObjectExpression" ∧
          ExportMap.ofObject? value = some entries ∧
          literal = (value.annotate s.marker true).1 ∧ literal.bare = value.bare ∧
          page.nodes = anchorAll page.statement.readRegion
            ((if entries.namedExports.isEmpty then [] else [.exportNamed entries.namedExports]) ++
              [.exportDefault literal]) ∧
          (page.reports s).filter Diagnostic.isOnExports = []) ∧
        (¬first → ∃ node notice, node = (page.statement.annotate s.marker false).1 ∧
          node.bare = page.statement.bare ∧ page.nodes = [node] ∧
          value.exportsRefusal? (before.any fun earlier => earlier.statement.yieldsExports) =
            some notice ∧
          (page.reports s).filter Diagnostic.isOnExports = [.about notice page.statement]) := by
  intro body
  refine ⟨exists_liftWith ledger s isProgram, fun lifted known => ?_⟩
  obtain ⟨names, pages, statements, nodes, _, items, _, _, diagnostics, follow⟩ :=
    pages_liftWith s known
  refine ⟨names, pages, statements, nodes, items, diagnostics, ?_, ?_⟩
  · intro page held other
    obtain ⟨earlier, filled⟩ := follow.filled held
    exact filled.reports_other other
  · intro before page after value split isExpression assigned first
    -- What a page is filled with depends on the pages before it only by whether one of them made
    -- exports.
    have filled := follow before page after split
    rw [Bool.false_or] at filled
    have becomes := filled.nodes_assigned isExpression assigned
    have reports := filled.reports_assigned isExpression assigned
    have yields := Tree.yieldsExports_of_assigned isExpression assigned
    -- Nothing is refused of the first one, and something of every other.
    have none : value.exportsRefusal? (before.any fun earlier => earlier.statement.yieldsExports) =
        none ↔ first := by
      rw [Tree.exportsRefusal?_eq_none, ← yields, List.any_eq_false]
      simp only [first, Bool.not_eq_true]
    refine ⟨fun isFirst => ?_, fun notFirst => ?_⟩
    · have fresh : (before.any fun earlier => earlier.statement.yieldsExports) = false :=
        (Tree.exportsRefusal?_eq_none.mp (none.mpr isFirst)).2
      rw [if_pos (by simp [isFirst.1, fresh])] at becomes
      obtain ⟨entries, found, becomes⟩ := becomes
      rw [none.mpr isFirst] at reports
      have object : value.isA "ObjectExpression" := by
        have accepted := yields.symm.trans isFirst.1
        rw [Bool.and_eq_true] at accepted
        exact accepted.1
      exact ⟨entries, _, object, found, rfl, Tree.bare_annotate .., becomes, reports⟩
    · obtain ⟨notice, refused⟩ := Option.ne_none_iff_exists'.mp (mt none.mp notFirst)
      have stays : (page.statement.yieldsExports &&
          !before.any fun earlier => earlier.statement.yieldsExports) = false := by
        rw [Bool.eq_false_iff, yields]
        intro both
        rw [Bool.and_eq_true, Bool.not_eq_true'] at both
        exact notFirst (none.mp (Tree.exportsRefusal?_eq_none.mpr both))
      rw [stays, if_neg Bool.false_ne_true] at becomes
      rw [refused] at reports
      exact ⟨_, notice, rfl, Tree.bare_annotate .., becomes, refused, reports⟩

open Lift in
/-- Three assignments, of a name and of two object literals: the second makes the exports, and the
others stay. -/
theorem exports_of_first_sample :
    let property : Tree := .synthetic "Property" [("key", .identifier "a"),
      ("value", .identifier "b"), ("kind", .text "init")]
    let object : Tree := .synthetic "ObjectExpression" [("properties", .list [property])]
    let other := (exportsAssignment (.identifier "a")).readAt ⟨0, 19⟩
    let first := (exportsAssignment object).readAt ⟨20, 46⟩
    let second := (exportsAssignment object).readAt ⟨47, 73⟩
    let body := [other, first, second]
    let program : Tree := .synthetic "Program" [("body", .list body)]
    let s : Surroundings := { isFile := fun _ => false }
    program.isA "Program" ∧ program.Ranged ∧
      ∃ (lifted : Lifted) (early middle late : Page),
      liftWith {} s program = .ok lifted ∧
      lifted.diagnostics = [early, middle, late].flatMap (Page.reports s) ∧
      [early, middle, late].map Page.statement = body ∧
      early.nodes = [other] ∧
      middle.nodes = anchorAll ⟨20, 46⟩ [.exportNamed [("b", "a")], .exportDefault object] ∧
      late.nodes = [second] ∧
      (early.reports s).filter Diagnostic.isOnExports = [⟨.exportsNoObject, {}⟩] ∧
      (middle.reports s).filter Diagnostic.isOnExports = [] ∧
      (late.reports s).filter Diagnostic.isOnExports = [⟨.exportsRepeated, {}⟩] := by
  intro property object other first second body program s
  have ranged : program.Ranged := by decide
  obtain ⟨lifts, told⟩ := @exports_of_first {} s program rfl
  obtain ⟨lifted, known⟩ := lifts ranged
  obtain ⟨_, pages, statements, _, _, reports, _, each⟩ := told lifted known
  -- There are as many pages as statements, in their order.
  obtain ⟨early, _, rfl, one, rest⟩ := List.map_eq_cons_iff.mp statements
  obtain ⟨middle, _, rfl, two, rest⟩ := List.map_eq_cons_iff.mp rest
  obtain ⟨late, _, rfl, three, rest⟩ := List.map_eq_cons_iff.mp rest
  obtain rfl := List.map_eq_nil_iff.mp rest
  obtain ⟨_, _, rfl, _, same, refused, told⟩ :=
    (each [] early [middle, late] (.identifier "a") rfl (one ▸ rfl) (one ▸ rfl)).2
      (by rw [one]; decide)
  obtain ⟨_, _, _, found, rfl, _, made, silent⟩ :=
    (each [early] middle [late] object rfl (two ▸ rfl) (two ▸ rfl)).1
      ⟨two ▸ rfl, List.forall_mem_singleton.mpr (one ▸ rfl)⟩
  obtain ⟨_, _, rfl, _, again, repeated, warned⟩ :=
    (each [early, middle] late [] object rfl (three ▸ rfl) (three ▸ rfl)).2
      fun isFirst => by
        have none := isFirst.2 middle (by simp)
        rw [two] at none
        cases none
  cases refused
  rw [List.any_cons, List.any_cons, one, two] at repeated
  cases repeated
  cases found
  rw [one] at same told
  rw [two] at made
  rw [three] at again warned
  exact ⟨rfl, ranged, lifted, early, middle, late, known, reports, statements, same, made, again,
    told, silent, warned⟩

end ModuleLift
