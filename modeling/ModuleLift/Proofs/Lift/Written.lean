import ModuleLift.Proofs.Emission.Printable
import ModuleLift.Proofs.Lift.Division
import ModuleLift.Proofs.Lift.Record

/-! A program that was read can be lifted and written: all that lifting puts in has a printed form,
and every statement has its place. -/

namespace ModuleLift

open Emission

namespace Tree

variable {t : Tree}

/-- All nodes of what was read are copied. -/
theorem composed_of_grounded (grounded : ∀ part ∈ t.parts, part.Grounded) : t.Composed := by
  -- A node with a kind was read, so none is left to be composed.
  intro part held kinded unread
  have read := (grounded part held).1 kinded
  simp [unread] at read

/-- A node that was read can be written. -/
theorem ready_of_grounded (grounded : ∀ part ∈ t.parts, part.Grounded) (kinded : t.kind?.isSome) :
    t.Ready := by
  -- It is copied from its range.
  have read := range_of_grounded grounded (List.Subset.refl _) kinded
  exact ⟨by rw [isWritable, read, Bool.true_or], composed_of_grounded grounded⟩

/-- A node inside something that was read. -/
theorem ready_inside {part : Tree} (grounded : ∀ part ∈ t.parts, part.Grounded)
    (inside : part.parts ⊆ t.parts) (kinded : part.kind?.isSome) : part.Ready :=
  ready_of_grounded (fun other held => grounded other (inside held)) kinded

end Tree

namespace Lift

variable {s : Surroundings} {t : Tree}

/-- The source of an import is the literal that was read, or a new one. -/
theorem NamesModule.ready {target source : Tree} {module : Text}
    (names : NamesModule s target module source) (ready : target.Ready) : source.Ready := by
  -- The literal of the call, or a new one where the specifier is completed.
  cases names with
  | written => exact ready
  | completed quote => exact Tree.ready_stringLiteral quote _

/-- The literal that `require` is called with was read. -/
theorem ready_target {init : Tree} {loader : Loader} {module : Text}
    (grounded : ∀ part ∈ t.parts, part.Grounded) (inside : init.parts ⊆ t.parts)
    (called : Loader.classify init = some loader) (named : loader.module? = some module) :
    loader.target.Ready :=
  Tree.ready_inside grounded
    (fun _ member => inside ((Loader.calls_of_classify called).target_subset member))
    (Loader.kind_of_stringValue (Option.isSome_of_eq_some named))

section Settled

variable {d : Tree} {bound : List Text} {fate : Fate} {own : List Diagnostic}

/-- The import made for a declarator can be written. -/
theorem Settles.ready_statement (settles : Settles s bound d fate own)
    (grounded : ∀ part ∈ d.parts, part.Grounded) : ∀ u ∈ fate.statement?, u.Ready := by
  have inside : (d.get "init").parts ⊆ d.parts := (Tree.parts_get_sublist d rfl).subset
  intro u made
  -- The source of an import is the argument of the call or a literal that is put in.
  cases settles with
  | taken _ called named _ names specifies =>
    cases made
    exact Tree.ready_importFrom specifies (names.ready (ready_target grounded inside called named))
  | factored _ called named _ names =>
    cases made
    refine Tree.ready_importFrom ?_ (names.ready (ready_target grounded inside called named))
    exact List.forall_mem_singleton.mpr (.whole _)
  | _ => cases made

/-- What is left of a declarator can be written. -/
theorem Settles.ready_declarator (settles : Settles s bound d fate own)
    (kinded : d.kind?.isSome) (grounded : ∀ part ∈ d.parts, part.Grounded) :
    ∀ u ∈ fate.declarator?, u.Ready := by
  have ready := Tree.ready_of_grounded grounded kinded
  intro u made
  cases settles with
  | taken => cases made
  | factored _ called named fit =>
    cases made
    have init : (d.get "init").parts ⊆ d.parts := (Tree.parts_get_sublist d rfl).subset
    have name : (d.get "id").kind?.isSome := by
      rw [Tree.takesFactory, Bool.and_eq_true] at fit
      exact Tree.kind_of_isA fit.1
    refine Tree.ready_variableDeclarator
      (Tree.ready_inside grounded (Tree.parts_get_sublist d rfl).subset name)
      (Tree.ready_call (Tree.ready_identifier _) fun argument held => ?_)
    -- The arguments are those of the outer call.
    cases Loader.calls_of_classify called with
    | factory isCall =>
      have call := grounded _ (init (Tree.mem_parts_of_kind (Tree.kind_of_isA isCall)))
      exact Tree.ready_inside grounded
        (fun part member => init ((Tree.parts_sublist_of_mem_get rfl held).subset member))
        (call.2 "arguments" (by simp) argument held)
  | _ =>
    cases made
    exact ready

end Settled

section Statements

/-- Statements that can be written, each with its place. -/
structure Placeable (nodes : List Tree) : Prop where
  nonempty : nodes ≠ []
  each : ∀ u ∈ nodes, u.Ready ∧ u.region?.isSome

/-- Anchored statements have their places. -/
theorem placeable_anchorAll (region : Region) {added : List Tree} (some : added ≠ [])
    (each : ∀ u ∈ added, u.Ready) : Placeable (anchorAll region added) := by
  -- As many statements as before, each at the place it was given.
  refine ⟨fun none => some ?_, fun u held => ?_⟩
  · rw [← List.length_eq_zero_iff, ← length_anchorAll region, none, List.length_nil]
  · obtain ⟨v, member, place, rfl⟩ := mem_anchorAll held
    have ready := each v member
    exact ⟨ready.anchor place, by rw [Tree.region?_anchor ready.isNode]; rfl⟩

/-- What a declaration that was read is divided into. -/
theorem ready_divided {marker : Text} {fates : List Fate}
    (each : List.Forall₂ (fun d fate => ∃ bound own, Settles s bound d fate own)
      (t.get "declarations").items fates)
    (grounded : ∀ part ∈ t.parts, part.Grounded) (kinded : t.kind?.isSome) :
    ∀ u ∈ fates.filterMap Fate.statement? ++ remainder marker t fates, u.Ready := by
  have whole := grounded t (Tree.mem_parts_of_kind kinded)
  have below {d : Tree} (held : d ∈ (t.get "declarations").items) :
      ∀ part ∈ d.parts, part.Grounded :=
    fun part member => grounded part ((Tree.parts_sublist_of_mem_get rfl held).subset member)
  intro u member
  -- Imports are written on their own; what is left of the declarators is written inside one
  -- declaration.
  rcases List.mem_append.mp member with made | rest
  · obtain ⟨fate, held, found⟩ := List.mem_filterMap.mp made
    obtain ⟨d, own, _, _, settles⟩ := exists_of_forall₂ each.flip held
    exact settles.ready_statement (below own) u found
  · have left : ∀ d ∈ fates.filterMap Fate.declarator?, d.Ready := by
      intro v remains
      obtain ⟨fate, held, found⟩ := List.mem_filterMap.mp remains
      obtain ⟨d, own, _, _, settles⟩ := exists_of_forall₂ each.flip held
      exact settles.ready_declarator (whole.2 "declarations" (by simp) d own) (below own) v found
    have kind : (t.get "kind").Composed := (Tree.composed_of_grounded grounded).get rfl
    have declaration := Tree.ready_variableDeclaration kind left
    rw [eq_of_mem_remainder rest]
    split
    · exact declaration.comment marker
    · exact declaration

/-- What a statement that was read becomes. -/
theorem Lowered.placeable {p : Progress} {nodes : List Tree} (lowered : Lowered s t p nodes)
    (grounded : ∀ part ∈ t.parts, part.Grounded) (kinded : t.kind?.isSome) : Placeable nodes := by
  -- What is kept has the place it was read at. All other statements are anchored.
  cases lowered with
  | kept =>
    have ready := Tree.ready_of_grounded grounded kinded
    have place : t.region?.isSome :=
      region?_of_ranged (Tree.range_of_grounded grounded (List.Subset.refl _) kinded)
    refine ⟨List.cons_ne_nil _ _, List.forall_mem_singleton.mpr ?_⟩
    split
    · exact ⟨ready.comment s.marker, by rwa [Tree.region?_comment]⟩
    · exact ⟨ready, place⟩
  | declared _ _ each imports =>
    rw [assemble_eq imports]
    exact placeable_anchorAll _ (by simp [imports]) (ready_divided each grounded kinded)
  | loaded _ _ called named names =>
    have target := ready_target grounded (Tree.parts_get_sublist t rfl).subset called named
    have ready : (Tree.importEffects _).Ready :=
      Tree.ready_importFrom (by simp) (names.ready target)
    exact placeable_anchorAll t.readRegion (List.cons_ne_nil _ _)
      (List.forall_mem_singleton.mpr ready)
  | exported _ _ assigned object =>
    have value := Tree.ready_inside grounded (parts_exportsValue assigned) (Tree.kind_of_isA object)
    refine placeable_anchorAll _ (by simp) fun u held => ?_
    rcases eq_of_mem_exports held with rfl | rfl
    · exact Tree.ready_exportNamed _
    · exact Tree.ready_exportDefault value

/-- The definitions of ambient names. -/
theorem ready_polyfill (names : Polyfill) : ∀ t ∈ names.statements, t.Ready := by
  have constant (name : Text) {init : Tree} (value : init.Ready) :
      (Polyfill.constant name init).Ready :=
    Tree.ready_variableDeclaration (Tree.composed_of_parts rfl)
      (List.forall_mem_singleton.mpr
        (Tree.ready_variableDeclarator (Tree.ready_identifier name) value))
  have call (name : Text) {argument : Tree} (ready : argument.Ready) :
      (Tree.call (.identifier name) [argument]).Ready :=
    Tree.ready_call (Tree.ready_identifier name) (List.forall_mem_singleton.mpr ready)
  intro t held
  -- The definitions are an import and two constants, all of them put in.
  rcases mem_polyfill held with ⟨name, bound, module, rfl⟩ | ⟨name, rfl⟩ | ⟨name, rfl⟩
  · exact Tree.ready_importFrom (List.forall_mem_singleton.mpr (.named name bound))
      (Tree.ready_stringLiteral '"' module)
  · exact constant name (call _ Tree.ready_importMetaUrl)
  · exact constant name (call _ (call _ Tree.ready_importMetaUrl))

/-- The definitions put before a body have the place where it starts. -/
theorem ready_opening (names : Polyfill) (body : List Tree) :
    ∀ t ∈ opening names body, t.Ready ∧ t.region?.isSome := by
  -- Each definition is anchored there.
  intro t held
  obtain ⟨u, member, rfl⟩ := List.mem_map.mp held
  have ready := ready_polyfill names u member
  exact ⟨ready.anchor _, by rw [Tree.region?_anchor ready.isNode]; rfl⟩

end Statements

end Lift

/-- A statement that can be written is, if it stands somewhere. -/
theorem piece_ok (source : Source) {t : Tree} (ready : t.Ready) (stands : t.region?.isSome) :
    ∃ result, piece source t = .ok result := by
  -- A place and a text are all that a piece asks for.
  obtain ⟨region, place⟩ := Option.isSome_iff_exists.mp stands
  obtain ⟨text, rendered⟩ := render_ok source t ready
  rw [piece, place, rendered]
  exact ⟨_, rfl⟩

/-- Statements that can be written and stand somewhere make up a program that can be written. -/
theorem emit_ok (source : Text) (finalNewline : Bool) {program : Tree}
    (ready : ∀ t ∈ (program.get "body").items, t.Ready ∧ t.region?.isSome) :
    ∃ emitted, emit source finalNewline program = .ok emitted :=
  exists_bind_ok (exists_bind_ok (exists_mapM_ok fun t held =>
    piece_ok source.toArray (ready t held).1 (ready t held).2) fun _ => ⟨_, rfl⟩) fun _ => ⟨_, rfl⟩

open Lift in
/-- A program of nodes that were read can be lifted and written, with whatever files around it and
from whatever text. Every node that was put in, however deep, is of a kind that is printed and has
all fields that are printed of it. Each statement becomes at least one, which has its place, so that
definitions are only put before a body that has a first statement; and if a declarator is lowered,
there is an import to stand for the text. -/
theorem emit_liftWith (ledger : Ledger) (s : Surroundings) (source : Text) (finalNewline : Bool)
    {program : Tree} (isProgram : program.isA "Program")
    (statements : ∀ t ∈ (program.get "body").items, t.kind?.isSome)
    (grounded : ∀ part ∈ program.parts, part.Grounded) :
    let body := (program.get "body").items
    let nodes := (outputs s body (.ofLedger ledger)).flatten
    ∃ (lifted : Lifted) (names : Polyfill) (emitted : Emitted),
      liftWith ledger s program = .ok lifted ∧
      emit source finalNewline lifted.program = .ok emitted ∧
      (lifted.program.get "body").items = opening names nodes ++ nodes ∧
      (opening names nodes ≠ [] → nodes ≠ []) ∧
      (∀ here ∈ outputs s body (.ofLedger ledger), here ≠ []) ∧
      (∀ t ∈ (lifted.program.get "body").items, t.region?.isSome ∧ t.isWritable ∧
        ∀ part ∈ t.parts, part.kind?.isSome → part.range? = none → part.isPrintable) ∧
      ∀ (t : Tree) (p : Progress),
        (declarators s (t.get "declarations").items p).1.filterMap Fate.statement? = [] ↔
          ∀ d ∈ (t.get "declarations").items, d.isLowered = false := by
  intro body nodes
  have ranged : program.Ranged := fun t held =>
    Tree.range_of_grounded grounded (Tree.parts_sublist_of_mem_get rfl held).subset
      (statements t held)
  obtain ⟨lifted, known⟩ := exists_liftWith ledger s isProgram ranged
  obtain ⟨names, pages, pageStatements, pageNodes, final, items, _, _, _, follow⟩ :=
    pages_liftWith s known
  have same : pages.flatMap Page.nodes = nodes := by
    rw [List.flatMap_def, pageNodes]
  rw [same] at items
  have placeable : ∀ page ∈ pages, Placeable page.nodes := by
    intro page held
    obtain ⟨earlier, filled⟩ := follow.filled held
    obtain ⟨p, _, lowered⟩ := filled.becomes
    have member : page.statement ∈ (program.get "body").items :=
      pageStatements ▸ List.mem_map_of_mem held
    have inside : page.statement.parts ⊆ program.parts :=
      (Tree.parts_sublist_of_mem_get rfl member).subset
    refine lowered.placeable (Tree.forall_parts_of_bare_eq Tree.grounded_bare
      (Tree.bare_annotate ..) fun part below => grounded part (inside below)) ?_
    rw [← Tree.kind?_bare, Tree.bare_annotate, Tree.kind?_bare]
    exact statements _ member
  have written : ∀ t ∈ (lifted.program.get "body").items, t.Ready ∧ t.region?.isSome := by
    intro t held
    rw [items, ← same] at held
    rcases List.mem_append.mp held with before | here
    · exact ready_opening _ _ t before
    · obtain ⟨page, member, inside⟩ := List.mem_flatMap.mp here
      exact (placeable page member).each t inside
  obtain ⟨emitted, text⟩ := emit_ok source finalNewline written
  refine ⟨lifted, names, emitted, known, text, items, ?_, ?_, fun t held => ?_, fun t p => ?_⟩
  · -- Without nodes there were no statements, and so no names to be defined.
    rintro some none
    cases pages with
    | nil =>
      rw [List.map_nil] at pageStatements
      rw [final, ← pageStatements] at some
      exact some rfl
    | cons page rest =>
      rw [← same, List.flatMap_cons, List.append_eq_nil_iff] at none
      exact (placeable page List.mem_cons_self).nonempty none.1
  · rw [← pageNodes]
    exact List.forall_mem_map.mpr fun page held => (placeable page held).nonempty
  · obtain ⟨ready, place⟩ := written t held
    exact ⟨place, ready.writable, ready.composed⟩
  · exact statements_eq_nil (shares_declarators s _ p)

/-- A declaration with a declarator of every sort, and `__dirname;` on the next line. -/
def writtenSample : Tree :=
  .node (some "Program") { range := some ⟨0, 72⟩ } [("body", .list [dividedSample,
    .node (some "ExpressionStatement") { range := some ⟨62, 72⟩ } [("expression",
      .node (some "Identifier") { range := some ⟨62, 71⟩ } [("name", .text "__dirname")])]])]

/-- Imports, a call of a factory and definitions are put in, and all of it is written. -/
theorem emit_liftWith_sample :
    let source : Text :=
      -- The last statement stays, so the body is not empty.
      "let a = require('a'), b = require(c), d = require('d')(e), f;\n__dirname;"
    writtenSample.isA "Program" ∧ (∀ t ∈ (writtenSample.get "body").items, t.kind?.isSome) ∧
      (∀ part ∈ writtenSample.parts, part.Grounded) ∧
      ∃ (lifted : Lifted) (emitted : Emitted),
        liftWith {} { isFile := fun _ => false } writtenSample = .ok lifted ∧
        emit source true lifted.program = .ok emitted ∧
        (lifted.program.get "body").items ≠ [] ∧
        ∀ t ∈ (lifted.program.get "body").items, t.region?.isSome ∧ t.isWritable := by
  intro source
  have statements : ∀ t ∈ (writtenSample.get "body").items, t.kind?.isSome := by decide
  have grounded : ∀ part ∈ writtenSample.parts, part.Grounded := by decide
  obtain ⟨lifted, names, emitted, known, text, items, _, _, written, _⟩ :=
    emit_liftWith {} { isFile := fun _ => false } source true
      (show writtenSample.isA "Program" from rfl) statements grounded
  refine ⟨rfl, statements, grounded, lifted, emitted, known, text, ?_,
    fun t held => ⟨(written t held).1, (written t held).2.1⟩⟩
  rw [items]
  exact List.append_ne_nil_of_right_ne_nil _ (by decide)

end ModuleLift
