import ModuleLift.Proofs.Lift.Account
import ModuleLift.Proofs.Lift.Rounds
import ModuleLift.Proofs.Lift.Settled

/-! Statements with nothing left to do: lifting leaves them as they are, and all that it puts out
are such statements. -/

namespace ModuleLift

open Emission (ImportsName)

namespace Loader

variable {t : Tree} {loader : Loader} {nested : Bool}

/-- The walk goes to the argument of `require`. -/
theorem Requires.visits_target {target : Tree} (call : Requires t target) :
    Tree.visits true target ⊆ Tree.visits nested t := by
  -- The argument stands in the one field of the call that holds a list.
  have held : target ∈ (t.get "arguments").items := by simp [call.single]
  exact Tree.visits_get_item call.isCall rfl rfl held

/-- The walk goes to the argument of `require` inside of every form of call. -/
theorem Calls.visits_target (calls : Calls t loader) :
    Tree.visits true loader.target ⊆ Tree.visits nested t := by
  -- In the two longer forms the call of `require` is a field, which the walk enters.
  cases calls with
  | plain call => exact call.visits_target
  | factory isCall inner =>
    exact List.Subset.trans inner.visits_target (Tree.visits_get isCall rfl rfl)
  | member isMember inner =>
    exact List.Subset.trans inner.visits_target (Tree.visits_get isMember rfl rfl)

/-- The walk goes to what a factory is given. -/
theorem Calls.visits_given (calls : Calls t loader) {argument : Tree}
    (held : argument ∈ loader.given) : Tree.visits true argument ⊆ Tree.visits nested t := by
  -- Only a factory is given anything.
  cases calls with
  | factory isCall inner => exact Tree.visits_get_item isCall rfl rfl held
  | _ => cases held

end Loader

namespace Tree

/-- Whether a statement loads by a name that is not written out does not depend on its mark. -/
@[simp] theorem isDynamicLoad_mapMark (t : Tree) (change : Mark → Mark) :
    (t.mapMark change).isDynamicLoad = t.isDynamicLoad := by
  simp [isDynamicLoad]

/-- A comment that a node has is not repeated. -/
theorem comment_of_mem {t : Tree} {text : Text} (there : text ∈ t.mark.comments) :
    t.comment text = t := by
  -- Adding a comment first asks whether it is there.
  cases t with
  | node kind mark fields =>
    have known : mark.comments.contains text := List.contains_iff_mem.mpr there
    rw [comment, mapMark, Mark.addComment, if_pos known]
  | _ => rfl

/-- A node has the comment that it is given. -/
theorem mem_comments_comment {t : Tree} (isNode : t.isNode) (text : Text) :
    text ∈ (t.comment text).mark.comments := by
  -- It was there before, or it is put at the end.
  cases t with
  | node kind mark fields =>
    rw [comment, mapMark, Tree.mark, Mark.addComment]
    split
    · exact List.contains_iff_mem.mp ‹_›
    · simp
  | _ => cases isNode

end Tree

namespace Lift

section Lowered

variable (s : Surroundings) {t : Tree} {p : Progress}

/-- What becomes of a top-level statement, with what decides it. -/
inductive Lowered (t : Tree) (p : Progress) : List Tree → Prop where
  | kept (whole : t.isReplaced = false) (idle : makesExports p t = false) :
      Lowered t p [if t.isDynamicLoad then t.comment s.marker else t]
  | declared {fates : List Fate} (isDeclaration : t.isA "VariableDeclaration")
      (replaced : t.isReplaced)
      (each : List.Forall₂ (fun d fate => ∃ bound own, Settles s bound d fate own)
        (t.get "declarations").items fates)
      (imports : fates.filterMap Fate.statement? ≠ []) : Lowered t p (assemble s.marker t fates)
  | loaded {target source : Tree} {module : Text} (isExpression : t.isA "ExpressionStatement")
      (replaced : t.isReplaced)
      (called : Loader.classify (t.get "expression") = some (.plain target))
      (named : target.stringValue? = some module) (names : NamesModule s target module source) :
      Lowered t p [(Tree.importEffects source).anchor t.readRegion]
  -- The local names are among those that the object mentions, so the entries matter here.
  | exported {value : Tree} {entries : ExportMap} (isExpression : t.isA "ExpressionStatement")
      (makes : makesExports p t) (assigned : exportsValue? t = some value)
      (object : value.isA "ObjectExpression") (found : ExportMap.ofObject? value = some entries) :
      Lowered t p (anchorAll t.readRegion ((if entries.namedExports.isEmpty then []
        else [.exportNamed entries.namedExports]) ++ [.exportDefault value]))

/-- A statement that needs no comment and stays is kept. -/
theorem lowered_of_still (whole : t.isReplaced = false) (idle : makesExports p t = false)
    (still : t.isDynamicLoad = false) : Lowered s t p [t] := by
  -- The case of a statement that is kept, with the comment ruled out.
  have kept := @Lowered.kept s t p whole idle
  rwa [if_neg (by simp [still])] at kept

/-- What a declaration becomes. -/
theorem declaration_lowered (isDeclaration : t.isA "VariableDeclaration") (p : Progress) :
    Lowered s t p (declaration s t p).1 := by
  have each := settled_declarators s (t.get "declarations").items p
  have dynamic : t.isDynamicLoad =
      (declarators s (t.get "declarations").items p).1.any Fate.isDynamic := by
    rw [any_isDynamic (declarators_become s _ p), Tree.isDynamicLoad, if_pos isDeclaration]
  have replaced : t.isReplaced = (t.get "declarations").items.any Tree.isLowered := by
    rw [Tree.isReplaced, if_pos isDeclaration]
  simp only [declaration_eq]
  generalize (declarators s (t.get "declarations").items p).1 = fates at each dynamic ⊢
  -- An import is made for a declarator exactly if it is lowered.
  have imports : t.isReplaced = fates.any fun fate => fate.statement?.isSome := by
    rw [replaced]
    clear dynamic replaced
    generalize (t.get "declarations").items = ds at each
    induction each with
    | nil => rfl
    | cons settles _ ih =>
      obtain ⟨bound, own, settles⟩ := settles
      rw [List.any_cons, List.any_cons, settles.isSome_statement, ih]
  by_cases none : fates.filterMap Fate.statement? = []
  · have whole : t.isReplaced = false := by
      rw [imports, List.any_eq_false]
      exact fun fate held => by simp [List.filterMap_eq_nil_iff.mp none fate held]
    rw [assemble_whole none, ← dynamic]
    exact .kept whole (by simp [makesExports, Tree.yieldsExports_of_isA isDeclaration])
  · refine .declared isDeclaration ?_ each none
    rw [imports, List.any_eq_true]
    obtain ⟨u, held⟩ := List.exists_mem_of_ne_nil _ none
    obtain ⟨fate, member, made⟩ := List.mem_filterMap.mp held
    exact ⟨fate, member, by simp [made]⟩

/-- What an expression statement becomes. -/
theorem expressionStatement_lowered (isExpression : t.isA "ExpressionStatement") (p : Progress) :
    Lowered s t p (expressionStatement s t p).1 := by
  have noDeclaration := Tree.isA_eq_false isExpression (show _ ≠ "VariableDeclaration" by decide)
  have replaced : t.isReplaced = (Loader.classify (t.get "expression")).any Loader.isDirect := by
    simp [Tree.isReplaced, noDeclaration, isExpression]
  have load := isDynamicLoad_expression isExpression
  rw [Tree.loadsDynamically] at load
  have step := expressionStatement_step s t p
  generalize expressionStatement s t p = result at step ⊢
  cases step with
  | dynamic called unnamed =>
    -- An import takes the place of a call only if the module is named.
    have whole : t.isReplaced = false := by
      simp [replaced, called, Loader.isDirect_of_unnamed unnamed]
    have kept := @Lowered.kept s t p whole
      (makesExports_of_not_yields (yieldsExports_of_called called))
    simpa [load, called, unnamed] using kept
  | loaded called named =>
    have literal := Option.isSome_of_eq_some named
    exact .loaded isExpression (by simp [replaced, called, Loader.isDirect, literal]) called named
      (namesModule_importSource s _ _ p)
  | discarded called named indirect =>
    exact lowered_of_still s (by simp [replaced, called, Loader.isDirect_of_indirect indirect])
      (makesExports_of_not_yields (yieldsExports_of_called called)) (by simp [load, called, named])
  | idle uncalled unassigned =>
    exact lowered_of_still s (by simp [replaced, uncalled])
      (makesExports_of_not_yields (by simp [Tree.yieldsExports, unassigned]))
      (by simp [load, uncalled])
  | refused uncalled assigned refused =>
    exact lowered_of_still s (by simp [replaced, uncalled])
      (makesExports_of_refused isExpression assigned refused) (by simp [load, uncalled])
  | exported uncalled assigned object found first =>
    have yields := Tree.yieldsExports_of_assigned isExpression assigned
    exact .exported isExpression (by simp [makesExports, yields, object, found, first]) assigned
      object found

/-- What a top-level statement becomes. -/
theorem statement_lowered (t : Tree) (p : Progress) : Lowered s t p (statement s t p).1 := by
  -- The kinds of statements are tried in the order in which lifting tries them.
  rw [statement_eq]
  split
  · exact declaration_lowered s ‹_› p
  · rename_i noDeclaration
    split
    · exact expressionStatement_lowered s ‹_› p
    · rename_i noExpression
      exact lowered_of_still s (by simp [Tree.isReplaced, noDeclaration, noExpression])
        (by simp [makesExports, Tree.yieldsExports, noExpression])
        (by simp [Tree.isDynamicLoad, noDeclaration, noExpression])

/-- One statement, commented below. -/
theorem step_lowered (t : Tree) (p : Progress) : Lowered s (t.annotate s.marker false).1
    ((p.mention t.mentions).reportAll t.buriedDiagnostics) (step s t p).1 :=
  statement_lowered s _ _

/-- Comments below a declaration leave its declarators what they are. -/
theorem declared_annotate (marker : Text) (declared : t.isA "VariableDeclaration" →
      ∀ d ∈ (t.get "declarations").items, d.isA "VariableDeclarator") :
    (t.annotate marker false).1.isA "VariableDeclaration" →
      ∀ d ∈ ((t.annotate marker false).1.get "declarations").items, d.isA "VariableDeclarator" := by
  -- The kinds of the declaration and of its declarators are not touched by comments.
  intro isDeclaration
  rw [Tree.isA_annotate] at isDeclaration
  rw [Tree.declarations_annotate marker false isDeclaration, List.forall_mem_map]
  intro d held
  rw [Tree.isA_annotate]
  exact declared isDeclaration d held

end Lowered

section Rests

variable {marker : Text} {t : Tree}

/-- A top-level statement with nothing left to do but exports: what is buried in it has its
comments, no import takes its place, and it has a comment itself if it needs one. -/
structure Rests (marker : Text) (t : Tree) : Prop where
  settled : t.Settled marker false
  whole : t.isReplaced = false
  commented : t.isDynamicLoad → marker ∈ t.mark.comments

/-- A statement that rests does so wherever it stands. -/
theorem Rests.anchor (rests : Rests marker t) (region : Region) :
    Rests marker (t.anchor region) where
  settled := Tree.settled_mapMark rests.settled _
  whole := by rw [Tree.anchor, Tree.isReplaced_mapMark, rests.whole]
  commented dynamic := by
    -- Only the region in the mark changes, and none of the three conditions reads it.
    rw [Tree.anchor, Tree.isDynamicLoad_mapMark] at dynamic
    have there := rests.commented dynamic
    cases t <;> exact there

/-- A statement of any other kind only has to be commented below. -/
theorem rests_of_isA {kind : String} (isA : t.isA kind)
    (noDeclaration : kind ≠ "VariableDeclaration") (noExpression : kind ≠ "ExpressionStatement")
    (settled : t.Settled marker false) : Rests marker t := by
  -- Only declarations and expression statements are replaced or load dynamically.
  have other := Tree.isA_eq_false isA noDeclaration
  have another := Tree.isA_eq_false isA noExpression
  exact ⟨settled, by simp [Tree.isReplaced, other, another],
    by simp [Tree.isDynamicLoad, other, another]⟩

/-- A statement that stays gets the comment it needs. -/
theorem rests_marked (settled : t.Settled marker false) (whole : t.isReplaced = false) :
    Rests marker (if t.isDynamicLoad then t.comment marker else t) := by
  -- Where the comment is needed the statement is a node, and a node can have it.
  cases dynamic : t.isDynamicLoad with
  | false => exact ⟨settled, whole, by simp [dynamic]⟩
  | true =>
    have isNode : t.isNode := by
      cases t with
      | node kind mark fields => rfl
      | _ => cases dynamic
    rw [if_pos rfl]
    exact ⟨Tree.settled_mapMark settled _, by rwa [Tree.comment, Tree.isReplaced_mapMark],
      fun _ => Tree.mem_comments_comment isNode marker⟩

/-- A statement that rests and yields no exports is left as it is. -/
theorem statement_of_rests {s : Surroundings} (rests : Rests s.marker t)
    (none : t.yieldsExports = false) (p : Progress) : (statement s t p).1 = [t] := by
  -- Three of the four outcomes ask for something that is not there any more.
  have lowered := statement_lowered s t p
  generalize (statement s t p).1 = result at lowered
  cases lowered with
  | kept =>
    split
    · rw [Tree.comment_of_mem (rests.commented ‹_›)]
    · rfl
  | declared _ replaced => simp [rests.whole] at replaced
  | loaded _ replaced => simp [rests.whole] at replaced
  | exported _ makes => simp [makesExports, none] at makes

/-- One statement that rests: it is left as it is, and no comment is added. -/
theorem step_of_rests {s : Surroundings} (rests : Rests s.marker t)
    (none : t.yieldsExports = false) (p : Progress) :
    (step s t p).1 = [t] ∧ (step s t p).2.1 = false := by
  -- Commenting below adds nothing to a settled statement, so lifting sees it as it is.
  simp only [step, Tree.annotate_of_settled rests.settled, and_true]
  exact statement_of_rests rests none _

/-- All statements that rest. -/
theorem steps_of_rests {s : Surroundings} {ts : List Tree} (rests : ∀ t ∈ ts, Rests s.marker t)
    (none : ∀ t ∈ ts, t.yieldsExports = false) (p : Progress) :
    (steps s ts p).1 = ts ∧ (steps s ts p).2.1 = false := by
  -- Induction over the statements: one that rests passes the progress on to the next.
  induction ts generalizing p with
  | nil => exact ⟨rfl, rfl⟩
  | cons t rest ih =>
    obtain ⟨here, quiet⟩ := step_of_rests (rests t List.mem_cons_self)
      (none t List.mem_cons_self) p
    obtain ⟨later, calm⟩ := ih (fun u held => rests u (List.mem_cons_of_mem _ held))
      (fun u held => none u (List.mem_cons_of_mem _ held)) (step s t p).2.2
    simp only [steps, here, quiet, later, calm]
    exact ⟨rfl, rfl⟩

end Rests

section Outputs

variable {s : Surroundings} {marker : Text} {t : Tree}

/-- An import that is put in rests. -/
theorem rests_import {specifiers : List Tree} {source : Tree}
    (names : ∀ specifier ∈ specifiers, ImportsName specifier)
    (settled : source.Settled marker true) : Rests marker (.importFrom specifiers source) := by
  -- The specifiers are nodes of names, and the source is settled by assumption.
  have isImport : (Tree.importFrom specifiers source).isA "ImportDeclaration" := rfl
  refine rests_of_isA isImport (by decide) (by decide) (Tree.settled_synthetic rfl (by simp) ?_)
  have specified : (Tree.list specifiers).Settled marker true := by
    refine Tree.settled_list.mpr fun specifier held => ?_
    cases names specifier held <;> exact Tree.settled_synthetic rfl (fun _ => rfl) (by simp)
  simpa using ⟨specified, settled⟩

/-- What is left to declare rests, with a comment if it needs one. -/
theorem rests_variableDeclaration {kind : Tree} {ds : List Tree} (plain : kind.Settled marker true)
    (settled : ∀ d ∈ ds, d.Settled marker true) (whole : ∀ d ∈ ds, d.isLowered = false) :
    let declared := Tree.variableDeclaration kind ds
    Rests marker (if ds.any fun d => (d.get "init").loadsDynamically then declared.comment marker
      else declared) := by
  -- The comment of the declaration is the one that its declarators ask for.
  intro declared
  have below : declared.Settled marker false :=
    Tree.settled_synthetic rfl (by simp) (by simpa using ⟨Tree.settled_list.mpr settled, plain⟩)
  have none : declared.isReplaced = false :=
    List.any_eq_false.mpr fun d held => by simp [whole d held]
  exact rests_marked below none

/-- A declarator with a call by a name is settled if its parts are. -/
theorem settled_called {id : Tree} (callee : Text) {arguments : List Tree}
    (settled : id.Settled marker true)
    (given : ∀ argument ∈ arguments, argument.Settled marker true) :
    (Tree.variableDeclarator id (.call (.identifier callee) arguments)).Settled marker true := by
  -- A call by a name is no call of `require` that would need a comment.
  have call := @Tree.settled_call marker true callee arguments given
  exact Tree.settled_synthetic rfl (fun _ => rfl) (by simpa using ⟨settled, call⟩)

section Declarators

variable {bound : List Text} {d : Tree} {fate : Fate} {own : List Diagnostic}

/-- The source of an import holds no buried calls, for it is a part of the declarator or a text. -/
theorem NamesModule.settled {target source : Tree} {module : Text}
    (names : NamesModule s target module source) (settled : target.Settled marker true) :
    source.Settled marker true := by
  -- A specifier that is completed becomes a new literal, which holds nothing.
  cases names with
  | written complete => exact settled
  | completed quote => exact Tree.settled_stringLiteral quote _

/-- No import is made for what is left of a declarator, and it needs a comment if it did before. -/
theorem Settles.whole_declarator (settles : Settles s bound d fate own)
    (suffix : s.factorySuffix = defaultFactorySuffix) {left : Tree}
    (kept : fate.declarator? = some left) :
    left.isLowered = false ∧ (left.get "init").loadsDynamically = fate.isDynamic := by
  have lowered := settles.isSome_statement
  cases settles with
  | uncalled other =>
    cases kept
    exact ⟨lowered.symm, by simp [Tree.loadsDynamically, other, Fate.isDynamic]⟩
  | unnamed called unnamed =>
    cases kept
    exact ⟨lowered.symm, by simp [Tree.loadsDynamically, called, unnamed, Fate.isDynamic]⟩
  | refused notice called named unfit =>
    cases kept
    refine ⟨lowered.symm, ?_⟩
    simp only [Tree.loadsDynamically, called, Option.any_some, Fate.isDynamic]
    exact Option.isNone_eq_false_iff.mpr named
  | taken => cases kept
  | @factored target arguments _ _ factory _ called named fit names fresh =>
    cases kept
    -- A name that ends in the suffix is not `require`; with another suffix it might be.
    have other : factory ≠ "require" := by
      rintro rfl
      have ends := suffix_freshName ((d.get "id").name ++ s.factorySuffix) bound
      rw [← fresh, suffix] at ends
      exact absurd ((List.suffix_append _ _).trans ends) (by decide)
    exact whole_called (d.get "id") other arguments

/-- What is left of a declaration needs a comment if one of its declarators did. -/
theorem any_left (suffix : s.factorySuffix = defaultFactorySuffix) {ds : List Tree}
    {fates : List Fate}
    (each : List.Forall₂ (fun d fate => ∃ bound own, Settles s bound d fate own) ds fates) :
    (fates.filterMap Fate.declarator?).any (fun left => (left.get "init").loadsDynamically) =
      fates.any Fate.isDynamic := by
  induction each with
  | nil => rfl
  | @cons d fate _ _ settles _ ih =>
    obtain ⟨bound, own, settles⟩ := settles
    rw [List.filterMap_cons, List.any_cons, ← ih]
    -- Nothing is left of a declarator only if an import took its place.
    cases kept : fate.declarator? with
    | none =>
      have direct : fate.isDynamic = false := by
        cases fate with
        | imported => rfl
        | _ => cases kept
      rw [direct, Bool.false_or]
    | some left => simp only [List.any_cons, (settles.whole_declarator suffix kept).2]

variable (settles : Settles s bound d fate own) (settled : d.Settled marker true)
  (isDeclarator : d.isA "VariableDeclarator")

include settles settled isDeclarator

/-- The import made for a declarator rests. -/
theorem Settles.rests_statement {u : Tree} (made : fate.statement? = some u) : Rests marker u := by
  -- The walk over the declarator has been to the argument of the call.
  have target {loader : Loader} (called : Loader.classify (d.get "init") = some loader) :
      loader.target.Settled marker true :=
    settled.of_visits (List.Subset.trans (Loader.calls_of_classify called).visits_target
      (Tree.visits_get isDeclarator rfl rfl))
  cases settles with
  | taken _ called named fit names specifies binds =>
    cases made
    exact rests_import specifies (names.settled (target called))
  | factored _ called named fit names fresh =>
    cases made
    exact rests_import (by simpa using .whole _) (names.settled (target called))
  | _ => cases made

/-- What is left of a declarator holds no more than the declarator. -/
theorem Settles.settled_declarator {left : Tree} (kept : fate.declarator? = some left) :
    left.Settled marker true := by
  -- What a factory is given was part of the declarator, where the walk came by.
  cases settles with
  | taken => cases kept
  | @factored target arguments _ _ factory _ called named fit names fresh =>
    cases kept
    have init : (d.get "init").Settled marker true :=
      settled.of_visits (Tree.visits_get isDeclarator rfl rfl)
    exact settled_called factory (settled.of_visits (Tree.visits_get isDeclarator rfl rfl))
      fun argument held => init.of_visits ((Loader.calls_of_classify called).visits_given held)
  | _ => cases kept; exact settled

end Declarators

/-- What a declaration becomes rests, if an import was made. -/
theorem rests_assemble (suffix : s.factorySuffix = defaultFactorySuffix)
    (isDeclaration : t.isA "VariableDeclaration") (settled : t.Settled s.marker false)
    (declared : ∀ d ∈ (t.get "declarations").items, d.isA "VariableDeclarator")
    {fates : List Fate}
    (each : List.Forall₂ (fun d fate => ∃ bound own, Settles s bound d fate own)
      (t.get "declarations").items fates)
    (imports : fates.filterMap Fate.statement? ≠ []) :
    ∀ u ∈ assemble s.marker t fates, Rests s.marker u := by
  have inner {d : Tree} (held : d ∈ (t.get "declarations").items) : d.Settled s.marker true :=
    settled.of_visits (Tree.visits_get_item isDeclaration rfl rfl held)
  rw [assemble_eq imports]
  intro u member
  obtain ⟨v, held, place, rfl⟩ := mem_anchorAll member
  refine Rests.anchor ?_ place
  rcases List.mem_append.mp held with imported | remains
  · obtain ⟨fate, found, made⟩ := List.mem_filterMap.mp imported
    obtain ⟨d, there, bound, own, settles⟩ := exists_of_forall₂ each.flip found
    exact settles.rests_statement (inner there) (declared d there) made
  · -- Each declarator that is left comes from one of the declarators.
    have lefts : ∀ left ∈ fates.filterMap Fate.declarator?,
        left.Settled s.marker true ∧ left.isLowered = false := by
      intro left remains
      obtain ⟨fate, found, kept⟩ := List.mem_filterMap.mp remains
      obtain ⟨d, there, bound, own, settles⟩ := exists_of_forall₂ each.flip found
      exact ⟨settles.settled_declarator (inner there) (declared d there) kept,
        (settles.whole_declarator suffix kept).1⟩
    have plain : (t.get "kind").Settled s.marker true :=
      settled.of_visits (Tree.visits_get isDeclaration rfl rfl)
    have whole := rests_variableDeclaration plain (fun left remains => (lefts left remains).1)
      fun left remains => (lefts left remains).2
    rw [any_left suffix each] at whole
    rwa [eq_of_mem_remainder remains]

/-- The exports made of an assignment rest. -/
theorem rests_exports {region : Region} {value : Tree} (settled : value.Settled marker true)
    (pairs : List (Text × Text)) :
    ∀ u ∈ anchorAll region ((if pairs.isEmpty then [] else [.exportNamed pairs]) ++
      [.exportDefault value]), Rests marker u := by
  -- What is settled below an assignment is settled below the export.
  have default : Rests marker (.exportDefault value) := by
    have isExport : (Tree.exportDefault value).isA "ExportDefaultDeclaration" := rfl
    exact rests_of_isA isExport (by decide) (by decide)
      (Tree.settled_synthetic rfl (by simp) (by simpa using settled))
  have named : Rests marker (.exportNamed pairs) := by
    have isExport : (Tree.exportNamed pairs).isA "ExportNamedDeclaration" := rfl
    have specifiers : (Tree.list (pairs.map fun pair => Tree.synthetic "ExportSpecifier"
        [("local", .identifier pair.1), ("exported", .identifier pair.2)])).Settled
          marker true := by
      rw [Tree.settled_list, List.forall_mem_map]
      exact fun pair _ => Tree.settled_synthetic rfl (fun _ => rfl) (by simp)
    exact rests_of_isA isExport (by decide) (by decide)
      (Tree.settled_synthetic rfl (by simp) (by simpa using specifiers))
  intro u member
  obtain ⟨v, held, place, rfl⟩ := mem_anchorAll member
  refine Rests.anchor ?_ place
  rcases eq_of_mem_exports held with rfl | rfl
  · exact named
  · exact default

/-- What a top-level statement becomes rests, once it is commented below. -/
theorem rests_step (suffix : s.factorySuffix = defaultFactorySuffix)
    (declared : t.isA "VariableDeclaration" →
      ∀ d ∈ (t.get "declarations").items, d.isA "VariableDeclarator") (p : Progress) :
    ∀ u ∈ (step s t p).1, Rests s.marker u := by
  have settled := Tree.settled_annotate s.marker false t
  have declarators := declared_annotate s.marker declared
  have lowered := step_lowered s t p
  -- All parts that are put together anew come from the commented statement.
  generalize (step s t p).1 = result at lowered ⊢
  generalize (t.annotate s.marker false).1 = t at settled declarators lowered
  cases lowered with
  | kept whole idle =>
    rw [List.forall_mem_singleton]
    exact rests_marked settled whole
  | declared isDeclaration _ each imports =>
    exact rests_assemble suffix isDeclaration settled (declarators isDeclaration) each imports
  | loaded isExpression _ called named names =>
    have below : (t.get "expression").Settled s.marker true :=
      settled.of_visits (Tree.visits_get isExpression rfl rfl)
    have source := names.settled (below.of_visits (Loader.calls_of_classify called).visits_target)
    rw [List.forall_mem_singleton]
    exact (rests_import (by simp) source).anchor _
  | exported isExpression _ assigned object found =>
    obtain ⟨isAssignment, _, rfl⟩ := assigns_of_exportsValue assigned
    have below : (t.get "expression").Settled s.marker true :=
      settled.of_visits (Tree.visits_get isExpression rfl rfl)
    exact rests_exports (below.of_visits (Tree.visits_get isAssignment rfl rfl)) _

/-- What the top-level statements become rests. -/
theorem rests_steps (suffix : s.factorySuffix = defaultFactorySuffix) {ts : List Tree}
    (declared : ∀ t ∈ ts, t.isA "VariableDeclaration" →
      ∀ d ∈ (t.get "declarations").items, d.isA "VariableDeclarator") (p : Progress) :
    ∀ u ∈ (steps s ts p).1, Rests s.marker u := by
  -- Induction over the statements, each for any progress made before it.
  induction ts generalizing p with
  | nil => simp [steps]
  | cons t rest ih =>
    simp only [steps, List.forall_mem_append]
    exact ⟨rests_step suffix (declared t List.mem_cons_self) p,
      ih (fun u held => declared u (List.mem_cons_of_mem _ held)) _⟩

/-- The definitions put before a body rest. -/
theorem rests_opening (names : Polyfill) (body : List Tree) :
    ∀ u ∈ opening names body, Rests marker u := by
  have address : Tree.importMetaUrl.Settled marker true := by
    have object : (Tree.synthetic "MetaProperty"
        [("meta", .identifier "import"), ("property", .identifier "meta")]).Settled marker true :=
      Tree.settled_synthetic rfl (fun _ => rfl) (by simp)
    exact Tree.settled_synthetic rfl (fun _ => rfl) (by simpa using object)
  have path : names.modulePath.Settled marker true :=
    Tree.settled_call names.toPathName (by simpa using address)
  -- What is called is a helper, and its name ends in that of a function.
  have constant (text : Text) {callee : Text} {argument : Tree} (other : callee ≠ "require")
      (given : argument.Settled marker true) :
      Rests marker (Polyfill.constant text (.call (.identifier callee) [argument])) := by
    obtain ⟨whole, still⟩ := whole_called (.identifier text) other [argument]
    have below := @settled_called marker (.identifier text) callee [argument] (by simp)
      (by simpa using given)
    have rests := @rests_variableDeclaration marker (.text "const") [_] (by simp)
      (by simpa using below) (by simpa using whole)
    simpa [still, Polyfill.constant] using rests
  simp only [opening, List.forall_mem_map]
  intro t held
  refine Rests.anchor ?_ _
  rcases mem_polyfill held with ⟨helper, bound, module, rfl⟩ | ⟨text, rfl⟩ | ⟨text, rfl⟩
  · exact rests_import (by simpa using .named helper bound) (by simp)
  · exact constant text (Polyfill.ne_toPathName (by decide)).symm address
  · exact constant text (Polyfill.ne_parentName (by decide)).symm path

end Outputs

end Lift

end ModuleLift
