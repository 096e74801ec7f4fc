import ModuleLift.Proofs.Lift.Comment
import ModuleLift.Proofs.Lift.Report

/-! How often the comments before the calls of `require` that stay are written: once, unless the
call lies in the value of a property written without its key. -/

namespace ModuleLift

open scoped List

namespace Tree

/-- The statements reported for a call of `require` that stays: a top-level statement, then those
below it. -/
def staying (t : Tree) : List Tree :=
  (if t.dynamicReports.isEmpty then [] else [t]) ++ t.buried

/-- Whether a call of `require` below a top-level statement lies in the value of a property written
without its key. -/
def concealsLoader (t : Tree) : Bool :=
  (visits false t).any fun v => v.node.isShorthand && !((v.node.get "value").loaders true).isEmpty

/-- A tree without comments is legible after commenting. -/
theorem legible_annotate {t : Tree} (shaped : ∀ part ∈ t.parts, part.kind?.isSome → part.Shaped)
    (fresh : t.marked = []) (marker : Text) (nested : Bool) :
    (t.annotate marker nested).1.Legible := by
  -- The shape is that of the program as read, and commenting sets the flags itself.
  exact ⟨forall_parts_of_bare_eq kindedShaped_bare (bare_annotate marker nested t) shaped,
    flagged_annotate fresh⟩

/-- A top-level statement itself gains no comment with those below it. -/
theorem not_isCommented_annotate {t : Tree} (fresh : t.marked = []) (marker : Text) :
    (t.annotate marker false).1.isCommented = false := by
  -- Only what lies below a top-level statement is commented.
  cases t with
  | node kind mark fields =>
    cases isName : kind == some "Identifier" with
    | true =>
      rw [annotate, if_pos isName]
      exact not_isCommented_of_fresh fresh
    | false =>
      rw [annotate_node mark fields marker false isName, isCommented, Tree.mark,
        comments_commentedMark (comments_of_fresh fresh)]
      rfl
  | _ => rfl

/-- A tree conceals no comment after commenting if and only if it conceals no call. -/
theorem revealed_annotate_iff {t : Tree} (fresh : t.marked = []) (marker : Text) :
    (t.annotate marker false).1.Revealed ↔ t.concealsLoader = false := by
  -- Comments stand where the calls are.
  rw [revealed_annotate fresh, concealsLoader, List.any_eq_false]
  simp

end Tree

namespace Lift

open Emission ModuleLift.Tree

section Tracing

variable {source : Source} {marker : Text}

/-- What some statements became has a comment in the place of each statement reported, and these are
written unless some are concealed. -/
structure Traced (source : Source) (marker : Text) (ts nodes : List Tree) : Prop where
  reveals : ∀ node ∈ nodes, Reveals source node ∧ node.region?.isSome
  revealed : (∀ node ∈ nodes, node.Revealed) ↔ ∀ t ∈ ts, t.concealsLoader = false
  regions : (nodes.flatMap marked).map region? = (ts.flatMap staying).map region?
  comments : ∀ m ∈ nodes.flatMap marked, m.mark.comments = [marker]

/-- The same of more statements. -/
theorem Traced.append {ts us nodes more : List Tree} (first : Traced source marker ts nodes)
    (rest : Traced source marker us more) : Traced source marker (ts ++ us) (nodes ++ more) where
  reveals := List.forall_mem_append.mpr ⟨first.reveals, rest.reveals⟩
  revealed := by
    rw [List.forall_mem_append, List.forall_mem_append]
    exact and_congr first.revealed rest.revealed
  regions := by
    rw [List.flatMap_append, List.flatMap_append, List.map_append, List.map_append, first.regions,
      rest.regions]
  comments := by
    rw [List.flatMap_append]
    exact List.forall_mem_append.mpr ⟨first.comments, rest.comments⟩

/-- Statements put in without comments change nothing. -/
theorem traced_unmarked {nodes : List Tree}
    (each : ∀ node ∈ nodes, node.marked = [] ∧ Reveals source node ∧ node.region?.isSome) :
    Traced source marker [] nodes := by
  -- Without comments there is nothing to show and nothing to conceal.
  have none : nodes.flatMap marked = [] :=
    List.flatMap_eq_nil_iff.mpr fun node member => (each node member).1
  refine ⟨fun node member => (each node member).2, ?_, by simp [none], by simp [none]⟩
  exact iff_of_true (fun node member => revealed_of_unmarked (each node member).1) (by simp)

/-- A statement as it was read, without comments. -/
structure FreshStatement (t : Tree) : Prop where
  isNode : t.kind?.isSome
  spanless : t.mark.span = none
  shaped : ∀ part ∈ t.parts, part.kind?.isSome → part.Shaped
  fresh : t.marked = []

/-- A statement as it was read has a range. -/
theorem FreshStatement.read {t : Tree} (known : FreshStatement t) : t.range?.isSome :=
  (known.shaped t (mem_parts_of_kind known.isNode) known.isNode).read

/-- One statement. -/
theorem traced_step (s : Surroundings) {t : Tree} (known : FreshStatement t) (p : Progress) :
    Traced source s.marker [t] (step s t p).1 := by
  -- Commenting below comes first; the outcome then says where the comments go.
  have same := bare_annotate s.marker false t
  have outcome := step_outcome s t p
  have legible := legible_annotate known.shaped known.fresh s.marker false
  have uncommented := not_isCommented_annotate known.fresh s.marker
  have revealed := revealed_annotate_iff known.fresh s.marker
  have regions := @regions_marked_annotate s.marker false t known.fresh
  have comments := @comments_annotate s.marker false t known.fresh
  have reports : (t.annotate s.marker false).1.isDynamicLoad = !t.dynamicReports.isEmpty := by
    rw [← Bool.not_eq_eq_eq_not, ← isEmpty_dynamicReports, ← dynamicReports_bare, same,
      dynamicReports_bare]
  have place : (t.annotate s.marker false).1.region? = t.region? := by
    rw [← region?_bare, same, region?_bare]
  have kind : (t.annotate s.marker false).1.kind? = t.kind? := by
    rw [← kind?_bare, same, kind?_bare]
  have span : (t.annotate s.marker false).1.mark.span = none := by
    have marks := congrArg (fun u : Tree => u.mark.span) same
    simpa [Mark.bare, known.spanless] using marks
  -- From here on only these facts about the commented statement are needed.
  generalize (t.annotate s.marker false).1 = commented at *
  have accounted := @Outcome.accounted source _ _ _ outcome legible
    (by rw [kind]; exact known.isNode) uncommented span
  obtain ⟨own, marks, gained, added⟩ := accounted.marked
  have stands := outcome.placed (by rw [place]; exact region?_of_ranged known.read)
  refine ⟨fun node member => ⟨accounted.reveals node member, stands node member⟩, ?_, ?_, ?_⟩
  · rw [List.forall_mem_singleton, accounted.revealed, revealed]
  · rw [marks, List.map_append, gained, regions, reports, place, List.flatMap_singleton, staying,
      List.map_append]
    cases t.dynamicReports.isEmpty <;> rfl
  · rw [marks]
    exact List.forall_mem_append.mpr ⟨added, comments⟩

/-- All statements, one after the other. -/
theorem traced_steps (s : Surroundings) {ts : List Tree} (known : ∀ t ∈ ts, FreshStatement t)
    (p : Progress) : Traced source s.marker ts (steps s ts p).1 := by
  -- The statements are independent, except for what is known on the way.
  induction ts generalizing p with
  | nil => exact traced_unmarked (by simp [steps])
  | cons t rest ih =>
    obtain ⟨first, others⟩ := List.forall_mem_cons.mp known
    exact (traced_step s first p).append (ih others _)

/-- The definitions put before a body have no comments. -/
theorem marked_polyfill {names : Polyfill} {t : Tree} (member : t ∈ names.statements) :
    t.marked = [] := by
  -- They are of three forms, and all are put in without comments.
  rcases mem_polyfill member with ⟨name, bound, module, rfl⟩ | ⟨name, rfl⟩ | ⟨name, rfl⟩
  all_goals rfl

/-- The definitions put before a body. -/
theorem traced_opening (names : Polyfill) (body : List Tree) :
    Traced source marker [] (opening names body) := by
  -- Anchoring them to the start of the body adds no comments.
  refine traced_unmarked (List.forall_mem_map.mpr fun t member => ?_)
  have none := marked_polyfill member
  have isNode : t.isNode := by
    rcases mem_polyfill member with ⟨_, _, _, rfl⟩ | ⟨_, rfl⟩ | ⟨_, rfl⟩ <;> rfl
  exact ⟨(marked_anchor (not_isCommented_of_fresh none) _).trans none,
    ((discloses_unmarked (prints_polyfill names t member) none).anchor _).reveals,
    by rw [region?_anchor isNode]; rfl⟩

end Tracing

/-- A lifted program has a comment in the place of each statement reported, and these are written
unless some are concealed. -/
theorem traced_lift (source : Source) (ledger : Ledger) (s : Surroundings) {program : Tree}
    (isProgram : program.isA "Program")
    (known : ∀ t ∈ (program.get "body").items, FreshStatement t) :
    ∃ lifted : Lifted, liftWith ledger s program = .ok lifted ∧
      (lifted.diagnostics.filter fun d => d.notice.isMarked) =
        ((program.get "body").items.flatMap fun t => t.buriedDiagnostics ++ t.dynamicReports) ∧
      Traced source s.marker (program.get "body").items (lifted.program.get "body").items := by
  -- The new body is made of the definitions and of what the statements became.
  have result := liftWith_of_ranged ledger s isProgram fun t member => (known t member).read
  obtain ⟨reports, items⟩ := body_of_liftWith result
  refine ⟨_, result, ?_, ?_⟩
  · rw [reports]
    exact staying_steps s (program.get "body").items (Progress.ofLedger ledger)
  · rw [items]
    exact (traced_opening _ _).append (traced_steps s known _)

end Lift

open Emission Lift in
/-- A lifted program is written with a comment for each call of `require` that stays, at most once
each; they are all written if and only if no such call lies in the value of a property written
without its key. -/
theorem markers_shown_iff {source : Text} {program : Tree} (ledger : Ledger) (s : Surroundings)
    (isProgram : program.isA "Program")
    (statements : ∀ t ∈ (program.get "body").items, t.kind?.isSome ∧ t.mark.span = none)
    (shaped : ∀ part ∈ program.parts, part.kind?.isSome → part.Shaped)
    (fresh : program.marked = []) :
    let body := (program.get "body").items
    ∃ (lifted : Lifted) (fragments : List Fragment),
      liftWith ledger s program = .ok lifted ∧
      programFragments source.toArray lifted.program = .ok fragments ∧
      (∀ ending, ∃ emitted, emit source ending lifted.program = .ok emitted ∧
        (emitted.text = written source.toArray fragments ∨
          emitted.text = written source.toArray fragments ++ "\n")) ∧
      (lifted.diagnostics.filter fun d => d.notice.isMarked) =
        (body.flatMap fun t => t.buriedDiagnostics ++ t.dynamicReports) ∧
      let marked := (lifted.program.get "body").items.flatMap Tree.marked
      marked.map Tree.region? = (body.flatMap Tree.staying).map Tree.region? ∧
      (∀ t ∈ marked, t.mark.comments = [s.marker]) ∧
      remarked fragments <+~ marked ∧
      (remarked fragments ~ marked ↔ ∀ t ∈ body, t.concealsLoader = false) := by
  intro body
  -- The statements are parts of the program, so they are read and without comments as it is.
  have known : ∀ t ∈ body, FreshStatement t := by
    intro t member
    have inside := Tree.parts_sublist_of_mem_get rfl member
    exact ⟨(statements t member).1, (statements t member).2,
      fun part found => shaped part (inside.subset found),
      List.sublist_nil.mp (fresh ▸ Tree.marked_sublist inside)⟩
  obtain ⟨lifted, result, reports, traced⟩ :=
    traced_lift source.toArray ledger s isProgram known
  -- Every node of the new body can be written, so the whole body can.
  obtain ⟨fragments, found, accounts⟩ := accounts_programFragments traced.reveals
  have text : programText source.toArray lifted.program =
      .ok (written source.toArray fragments) := by
    rw [programText_eq, found]
    rfl
  exact ⟨lifted, fragments, result, found, emit_of_programText text, reports, traced.regions,
    traced.comments, accounts.shown_subperm, accounts.perm_iff.trans traced.revealed⟩

/-- The text `const a = require(b), c = require('c');` and, on the next line,
`if (d) { require('e'); }`. -/
def stayingSample : Tree :=
  let read (kind : String) (start stop : Nat) (fields : List (String × Tree)) : Tree :=
    .node (some kind) { range := some ⟨start, stop⟩ } fields
  let name (text : Text) (start stop : Nat) : Tree :=
    read "Identifier" start stop [("name", .text text)]
  let literal (value raw : Text) (start stop : Nat) : Tree :=
    read "Literal" start stop [("value", .text value), ("raw", .text raw)]
  let call (start stop : Nat) (argument : Tree) : Tree :=
    read "CallExpression" start stop
      [("callee", name "require" start (start + 7)), ("arguments", .list [argument])]
  -- One call stays at the top level, next to one that is imported; another stays in a block.
  read "Program" 0 64 [("body", .list [
    read "VariableDeclaration" 0 39 [("declarations", .list [
      read "VariableDeclarator" 6 20 [("id", name "a" 6 7), ("init", call 10 20 (name "b" 18 19))],
      read "VariableDeclarator" 22 38
        [("id", name "c" 22 23), ("init", call 26 38 (literal "c" "'c'" 34 37))]]),
      ("kind", .text "const")],
    read "IfStatement" 40 64 [("test", name "d" 44 45), ("consequent",
      read "BlockStatement" 47 64 [("body", .list [
        read "ExpressionStatement" 49 62 [("expression", call 49 61 (literal "e" "'e'" 57 60))]])]),
      ("alternate", .null)]])]

open Emission Lift in
/-- What is left of a declaration and a statement in a block: both comments are written. -/
theorem markers_shown_staying :
    let source : Text := "const a = require(b), c = require('c');\nif (d) \x7b require('e'); \x7d"
    (∀ t ∈ (stayingSample.get "body").items, t.kind?.isSome ∧ t.mark.span = none) ∧
      (∀ part ∈ stayingSample.parts, part.kind?.isSome → part.Shaped) ∧
      stayingSample.marked = [] ∧
      ∃ (lifted : Lifted) (fragments : List Fragment),
        liftWith {} { isFile := fun _ => false } stayingSample = .ok lifted ∧
        programFragments source.toArray lifted.program = .ok fragments ∧
        ((lifted.program.get "body").items.flatMap Tree.marked).map Tree.region? =
          [some ⟨0, 39⟩, some ⟨49, 62⟩] ∧
        remarked fragments ~ (lifted.program.get "body").items.flatMap Tree.marked := by
  -- That the sample has the shape of a tree that was read is decided.
  have statements : ∀ t ∈ (stayingSample.get "body").items,
      t.kind?.isSome ∧ t.mark.span = none := by decide
  have shaped : ∀ part ∈ stayingSample.parts, part.kind?.isSome → part.Shaped := by decide
  obtain ⟨lifted, fragments, result, found, _, _, regions, _, _, complete⟩ :=
    @markers_shown_iff "const a = require(b), c = require('c');\nif (d) \x7b require('e'); \x7d"
      stayingSample {} { isFile := fun _ => false } (by decide) statements shaped rfl
  exact ⟨statements, shaped, rfl, lifted, fragments, result, found, regions,
    complete.mpr (by decide)⟩

/-- The text `function f({ a = function () { require('x'); } }) {}`. -/
def concealedSample : Tree :=
  let read (kind : String) (start stop : Nat) (fields : List (String × Tree)) : Tree :=
    .node (some kind) { range := some ⟨start, stop⟩ } fields
  let name (text : Text) (start stop : Nat) : Tree :=
    read "Identifier" start stop [("name", .text text)]
  let call := read "CallExpression" 31 43 [("callee", name "require" 31 38), ("arguments",
    .list [read "Literal" 39 42 [("value", .text "x"), ("raw", .text "'x'")]])]
  let inner := read "FunctionExpression" 17 46 [("params", .list []), ("body",
    read "BlockStatement" 29 46 [("body",
      .list [read "ExpressionStatement" 31 44 [("expression", call)]])])]
  -- The value is the name with its default, so it starts where the key does.
  let property := read "Property" 13 46 [("key", name "a" 13 14), ("computed", .flag false),
    ("value", read "AssignmentPattern" 13 46 [("left", name "a" 13 14), ("right", inner)]),
    ("kind", .text "init"), ("shorthand", .flag true)]
  read "Program" 0 52 [("body", .list [
    read "FunctionDeclaration" 0 52 [("id", name "f" 9 10),
      ("params", .list [read "ObjectPattern" 11 48 [("properties", .list [property])]]),
      ("body", read "BlockStatement" 50 52 [("body", .list [])])]])]

open Emission Lift in
/-- The call in the default of a parameter is reported, and its comment is not written. -/
theorem marker_concealed :
    let source : Text := "function f(\x7b a = function () \x7b require('x'); \x7d \x7d) \x7b\x7d"
    ∃ (lifted : Lifted) (fragments : List Fragment),
      liftWith {} { isFile := fun _ => false } concealedSample = .ok lifted ∧
      programFragments source.toArray lifted.program = .ok fragments ∧
      (lifted.diagnostics.filter fun d => d.notice.isMarked) = [{ notice := .nestedRequire }] ∧
      ((lifted.program.get "body").items.flatMap Tree.marked).map Tree.region? =
        [some ⟨31, 44⟩] ∧
      remarked fragments = [] := by
  intro source
  have known : ∀ t ∈ (concealedSample.get "body").items, FreshStatement t := by
    have shaped : ∀ part ∈ concealedSample.parts, part.kind?.isSome → part.Shaped := by decide
    intro t member
    have only := List.mem_singleton.mp member
    subst only
    exact ⟨rfl, rfl, fun part found => shaped part
      ((Tree.parts_sublist_of_mem_get rfl member).subset found), rfl⟩
  obtain ⟨lifted, result, reports, traced⟩ :=
    traced_lift source.toArray {} { isFile := fun _ => false } (by decide) known
  obtain ⟨fragments, found, accounts⟩ := accounts_programFragments traced.reveals
  have regions : ((lifted.program.get "body").items.flatMap Tree.marked).map Tree.region? =
      [some ⟨31, 44⟩] := traced.regions
  have one := congrArg List.length regions
  rw [List.length_map, List.length_singleton] at one
  refine ⟨lifted, fragments, result, found, reports, regions, ?_⟩
  -- At most one comment is written, and not as many as there are.
  have some := accounts.shown_subperm.length_le
  have fewer : ¬(remarked fragments).length = 1 := by
    rw [← one, accounts.length_eq_iff, traced.revealed]
    decide
  rw [← List.length_eq_zero_iff]
  omega

end ModuleLift
