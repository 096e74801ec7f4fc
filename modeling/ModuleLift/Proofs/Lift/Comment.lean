import ModuleLift.Proofs.Emission.Reveal
import ModuleLift.Proofs.Lift.Layout

/-! What becomes of the comments in a top-level statement: they all stay with it, and they are
written unless some are concealed. -/

namespace ModuleLift

open scoped List

namespace Tree

section Unmarked

variable {t target : Tree}

/-- A string literal has no comments in it. -/
theorem marked_stringValue (legible : t.Legible) (named : t.stringValue?.isSome) :
    t.marked = [] := by
  -- A literal has no fields that are entered.
  rw [stringValue?] at named
  split at named
  · rename_i literal
    exact marked_of_isA legible (Bool.and_eq_true_iff.mp literal).1 rfl (by decide)
  · simp at named

/-- The comments in a call stand in what is called and in what it is given. -/
theorem marked_call (legible : t.Legible) (isCall : t.isA "CallExpression") :
    t.marked = (t.get "callee").marked ++ (t.get "arguments").items.flatMap marked := by
  -- A call holds its callee and its arguments, and no comment stands before it.
  have series := (legible.self (kind_of_isA isCall)).series "arguments" (by simp)
  rw [marked_of_isA legible isCall rfl (by decide), ← marked_series series]
  simp

/-- A call of `require` with a string literal has no comments in it. -/
theorem marked_requires (legible : t.Legible) (call : Loader.Requires t target)
    (named : target.stringValue?.isSome) : t.marked = [] := by
  -- `require` is a name, and its argument a literal.
  have inside : target.Legible := legible.inside call.target_subset
  have callee : (t.get "callee").Legible := legible.get rfl
  rw [marked_call legible call.isCall, call.single,
    Emission.marked_identifier callee (Bool.and_eq_true_iff.mp call.callee).1]
  simp [marked_stringValue inside named]

/-- The comments in a call of `require` with a string literal, or in what surrounds it, stand in
what a factory is given. -/
theorem marked_loader (legible : t.Legible) {loader : Loader} (calls : Loader.Calls t loader)
    (named : loader.module?.isSome) :
    t.marked = loader.given.flatMap marked := by
  -- The call itself has no comments, and of what surrounds it only arguments can have some.
  cases calls with
  | plain call => exact marked_requires legible call named
  -- The inner call names the module, and the outer one has the arguments.
  | factory isCall inner known =>
    rw [marked_call legible isCall, marked_requires (legible.get rfl) inner known]
    rfl
  | member isMember inner known property =>
    have name : (t.get "property").Legible := legible.get rfl
    rw [marked_of_isA legible isMember rfl (by decide)]
    simp [marked_requires (legible.get rfl) inner known, Emission.marked_identifier name property,
      Loader.given]

/-- A key that stands for a name has no comments in it. -/
theorem marked_propertyKey (legible : t.Legible) (named : (propertyKey? t).isSome) :
    t.marked = [] := by
  -- A key is a name or a string, and neither has anything below it.
  rw [propertyKey?] at named
  split at named
  · exact Emission.marked_identifier legible ‹_›
  · obtain ⟨key, found⟩ := Option.isSome_iff_exists.mp named
    have named := Option.isSome_of_eq_some (Option.filter_eq_some_iff.mp found).1
    exact marked_stringValue legible named

/-- A property of a flat pattern has no comments in it. -/
theorem marked_patternPair (legible : t.Legible) (flat : (patternPair? t).isSome) :
    t.marked = [] := by
  -- The key stands for a name, and the value is one.
  have key : (t.get "key").Legible := legible.get rfl
  have value : (t.get "value").Legible := legible.get rfl
  rw [patternPair?] at flat
  split at flat
  · rename_i property
    split at flat
    · rename_i name found
      split at flat
      · rename_i bound
        rw [marked_of_isA legible (Bool.and_eq_true_iff.mp property).1 rfl (by decide)]
        simp [marked_propertyKey key (Option.isSome_of_eq_some found),
          Emission.marked_identifier value bound]
      · simp at flat
    · simp at flat
  · simp at flat

/-- A list of results is found only if each of them is. -/
theorem isSome_of_mapM {α β : Type} {f : α → Option β} {items : List α}
    (all : (items.mapM f).isSome) : ∀ item ∈ items, (f item).isSome := by
  -- A failure anywhere would be a failure of the whole.
  induction items with
  | nil => simp
  | cons item rest ih =>
    rw [List.mapM_cons] at all
    cases first : f item with
    | none => simp [first] at all
    | some result =>
      cases others : rest.mapM f with
      | none => simp [first, others] at all
      | some results =>
        exact List.forall_mem_cons.mpr ⟨by simp [first], ih (by simp [others])⟩

/-- A flat pattern has no comments in it. -/
theorem marked_pattern (legible : t.Legible) (pattern : t.isA "ObjectPattern")
    (flat : (patternPairs? t).isSome) : t.marked = [] := by
  -- All properties of a flat pattern are pairs of names.
  have series := (legible.self (kind_of_isA pattern)).series "properties" (by simp)
  rw [marked_of_isA legible pattern rfl (by decide), List.flatMap_singleton, marked_series series,
    List.flatMap_eq_nil_iff]
  intro property held
  exact marked_patternPair (legible.item rfl held) (isSome_of_mapM flat property held)

end Unmarked

end Tree

namespace Lift

open Emission ModuleLift.Tree

section Declarators

variable {source : Source} {d : Tree} {fate : Fate}

/-- An import has the comments of the literal it names. -/
theorem marked_importFrom {specifiers : List Tree} (names : ∀ s ∈ specifiers, ImportsName s)
    (origin : Tree) : (importFrom specifiers origin).marked = origin.marked := by
  -- The specifiers are put in without comments.
  have none : specifiers.flatMap marked = [] := by
    rw [List.flatMap_eq_nil_iff]
    intro specifier held
    cases names specifier held with
    | whole name => rfl
    | named imported name => rfl
  simp [importFrom, fieldMarked, isNoteKey, none]

/-- An import in the place of a call of `require` has no comments. -/
theorem ImportsFrom.discloses {target statement : Tree} (imports : ImportsFrom target statement)
    (legible : target.Legible) (named : target.stringValue?.isSome) :
    statement.marked = [] ∧ Discloses source statement := by
  -- The literal has no comments, so the import shows none.
  have literal := marked_stringValue legible named
  have quiet : remarked (readFragments target) = [] :=
    List.subperm_nil.mp (literal ▸ remarked_readFragments target)
  have unmarked : statement.marked = [] := by
    cases imports with
    | written names => rw [marked_importFrom names, literal]
    | completed names quote path => rw [marked_importFrom names]; rfl
  obtain ⟨shown, prints, within⟩ :=
    @ImportsFrom.prints source _ _ imports (legible.self (Loader.kind_of_stringValue named)).read
  rw [quiet, List.sublist_nil] at within
  exact ⟨unmarked, discloses_unmarked (within ▸ prints) unmarked⟩

/-- The argument of `require` in a legible declarator is legible. -/
theorem legible_target (legible : d.Legible) {loader : Loader}
    (called : Loader.classify (d.get "init") = some loader) : loader.target.Legible := by
  -- The argument is a part of the initializer.
  have init : (d.get "init").Legible := legible.get rfl
  exact init.inside (Loader.calls_of_classify called).target_subset

/-- An import from a declarator has no comments. -/
theorem Becomes.discloses_statement (becomes : Becomes d fate) (legible : d.Legible) :
    ∀ statement ∈ fate.statement?, statement.marked = [] ∧ Discloses source statement := by
  -- The literal lies in the initializer, so it is legible with it.
  intro statement found
  obtain ⟨loader, called, named, imports⟩ := becomes.importsFrom found
  exact imports.discloses (legible_target legible called) named

/-- What is left of a declarator is written with its comments. -/
theorem Becomes.reveals_declarator (becomes : Becomes d fate) (legible : d.Legible)
    (isDeclarator : d.isA "VariableDeclarator") :
    ∀ left ∈ fate.declarator?, Reveals source left := by
  -- A declarator that is kept was read; one that calls a factory is printed anew.
  intro left found
  cases becomes with
  | kept => cases found; exact reveals_read legible (kind_of_isA isDeclarator)
  | dynamic => cases found; exact reveals_read legible (kind_of_isA isDeclarator)
  | imported => simp [Fate.declarator?] at found
  -- The name and the arguments are copied, and the call is printed around them.
  | @factored target arguments statement factory called named bound =>
    cases found
    have init : (d.get "init").Legible := legible.get rfl
    cases Loader.calls_of_classify called with
    | factory isCall inner _ =>
      have given := (init.self (kind_of_isA isCall)).given
      have callee := (discloses_unmarked (@prints_identifier source factory) rfl).reveals
      have call := discloses_call callee (revealsAll_of_forall fun argument held =>
        reveals_read (init.item rfl held) (given argument held))
      exact (discloses_variableDeclarator rfl (reveals_read (legible.get rfl) (kind_of_isA bound))
        call.reveals).reveals

/-- The name or the flat pattern that a declarator binds has no comments in it. -/
theorem marked_bound (legible : d.Legible)
    (bound : (d.get "id").isIdentifier ∨
      (d.get "id").isA "ObjectPattern" ∧ (patternPairs? (d.get "id")).isSome) :
    (d.get "id").marked = [] := by
  -- Neither a name nor a flat pattern has room for a call.
  rcases bound with name | ⟨pattern, flat⟩
  · exact marked_identifier (legible.get rfl) name
  · exact marked_pattern (legible.get rfl) pattern flat

/-- What is left of a declarator has all its comments. -/
theorem Becomes.marked_left (becomes : Becomes d fate) (legible : d.Legible)
    (isDeclarator : d.isA "VariableDeclarator") :
    fate.declarator?.toList.flatMap marked = d.marked := by
  -- What is dropped are names, flat patterns and calls without comments.
  have init : (d.get "init").Legible := legible.get rfl
  have whole := marked_of_isA legible isDeclarator rfl (by decide)
  simp only [List.flatMap_cons, List.flatMap_nil, List.append_nil] at whole
  cases becomes with
  | kept => exact List.flatMap_singleton ..
  | dynamic => exact List.flatMap_singleton ..
  | @imported loader statement called named direct bound imports =>
    have value := marked_loader init (Loader.calls_of_classify called) named
    rw [whole, marked_bound legible bound, value]
    -- Only a factory would be given something.
    cases loader with
    | plain => rfl
    | member => rfl
    | factory target arguments => exact absurd rfl (direct target arguments)
  | @factored target arguments statement factory called named bound imports =>
    have value := marked_loader init (Loader.calls_of_classify called) named
    rw [whole, value]
    simp [Fate.declarator?, variableDeclarator, call, identifier, fieldMarked, isNoteKey,
      Loader.given]

/-- What is left of a declarator conceals comments if and only if the declarator does. -/
theorem Becomes.revealed_left (becomes : Becomes d fate) (legible : d.Legible)
    (isDeclarator : d.isA "VariableDeclarator") :
    (∀ left ∈ fate.declarator?, left.Revealed) ↔ d.Revealed := by
  -- What is dropped conceals nothing, for it has no comments.
  have marks := becomes.marked_left legible isDeclarator
  cases becomes with
  | kept => simp [Fate.declarator?]
  | dynamic => simp [Fate.declarator?]
  | imported => exact iff_of_true (by simp [Fate.declarator?]) (revealed_of_unmarked marks.symm)
  | @factored target arguments statement factory called named bound imports =>
    have init : (d.get "init").Legible := legible.get rfl
    have id := revealed_of_unmarked (marked_bound legible (.inl bound))
    cases Loader.calls_of_classify called with
    | factory isCall inner _ =>
      have series := (init.self (kind_of_isA isCall)).series "arguments" (by simp)
      have callee := revealed_of_unmarked (marked_requires (init.get rfl) inner named)
      have name : (identifier factory).Revealed := revealed_of_unmarked rfl
      rw [revealed_of_isA legible isDeclarator rfl (by decide)]
      have value := revealed_of_isA init isCall rfl (by decide)
      simp [Fate.declarator?, variableDeclarator, call, revealed_synthetic, isNoteKey, id, name,
        revealed_list, value, callee, revealed_series series]

/-- What is left of several declarators has all their comments. -/
theorem marked_lefts {ds : List Tree} {fates : List Fate} (each : List.Forall₂ Becomes ds fates)
    (known : ∀ d ∈ ds, d.Legible ∧ d.isA "VariableDeclarator") :
    (fates.filterMap Fate.declarator?).flatMap marked = ds.flatMap marked := by
  -- At most one declarator is left of each, so the comments stay in order.
  rw [List.filterMap_eq_flatMap_toList, List.flatMap_assoc]
  induction each with
  | nil => rfl
  | cons becomes _ ih =>
    obtain ⟨⟨legible, isDeclarator⟩, others⟩ := List.forall_mem_cons.mp known
    rw [List.flatMap_cons, List.flatMap_cons, becomes.marked_left legible isDeclarator, ih others]

/-- What is left of several declarators conceals comments if and only if they do. -/
theorem revealed_lefts {ds : List Tree} {fates : List Fate} (each : List.Forall₂ Becomes ds fates)
    (known : ∀ d ∈ ds, d.Legible ∧ d.isA "VariableDeclarator") :
    (∀ left ∈ fates.filterMap Fate.declarator?, left.Revealed) ↔ ∀ d ∈ ds, d.Revealed := by
  -- Each declarator is dealt with by itself, and leaves one or none.
  rw [List.filterMap_eq_flatMap_toList]
  induction each with
  | nil => simp
  | cons becomes _ ih =>
    obtain ⟨⟨legible, isDeclarator⟩, others⟩ := List.forall_mem_cons.mp known
    rw [List.forall_mem_cons, ← ih others, ← becomes.revealed_left legible isDeclarator,
      List.flatMap_cons, List.forall_mem_append]
    simp

end Declarators

section Statements

variable {source : Source} {marker : Text} {t : Tree}

/-- What a statement became has the comments of the statement, after one before it if a call in it
has an argument that is no string literal; and they are written unless some are concealed. -/
structure Accounted (source : Source) (marker : Text) (t : Tree) (nodes : List Tree) : Prop where
  reveals : ∀ node ∈ nodes, Reveals source node
  revealed : (∀ node ∈ nodes, node.Revealed) ↔ t.Revealed
  marked : ∃ own : List Tree, nodes.flatMap Tree.marked = own ++ t.marked ∧
    own.map region? = (if t.isDynamicLoad then [t.region?] else []) ∧
    ∀ m ∈ own, m.mark.comments = [marker]

/-- A statement that stays. -/
theorem accounted_kept (legible : t.Legible) (isNode : t.kind?.isSome)
    (settled : t.isDynamicLoad = false) : Accounted source marker t [t] :=
  ⟨by simpa using reveals_read legible isNode, by simp, [], by simp, by simp [settled], by simp⟩

/-- A statement with a call whose argument is no string literal is of one of the two kinds that can
have comments. -/
theorem kind_of_isDynamicLoad (unknown : t.isDynamicLoad) :
    t.isA "VariableDeclaration" ∨ t.isA "ExpressionStatement" := by
  -- These are the kinds that are asked about calls; all others are answered at once.
  rw [isDynamicLoad] at unknown
  split at unknown
  · exact .inl ‹_›
  · split at unknown
    · exact .inr ‹_›
    · cases unknown

/-- A statement that can have comments is legible with one before it. -/
theorem legible_comment (legible : t.Legible)
    (kinds : t.isA "VariableDeclaration" ∨ t.isA "ExpressionStatement") (text : Text) :
    (t.comment text).Legible := by
  -- The shape does not depend on comments, and the flags below stay as they were.
  refine ⟨forall_parts_of_bare_eq kindedShaped_bare (bare_comment t text) legible.shaped, ?_⟩
  cases t with
  | node kind mark fields =>
    have own := legible.flagged _ (mem_parts_self rfl)
    intro part member
    rw [Tree.comment, mapMark, parts_node] at member
    rcases List.mem_cons.mp member with rfl | below
    · refine ⟨fun _ => kinds, fun unflagged => own.below ?_⟩
      rw [← unflagged]
      simp only [Tree.mark, Mark.addComment]
      split <;> rfl
    · exact legible.flagged part (by rw [parts_node]; exact List.mem_cons_of_mem _ below)
  | _ => exact legible.flagged

/-- A statement that stays with a comment before it. -/
theorem accounted_dynamic (legible : t.Legible) (uncommented : t.isCommented = false)
    (unknown : t.isDynamicLoad) : Accounted source marker t [t.comment marker] := by
  -- The statement had no comment before it, so this is the first and only one.
  have kinds := kind_of_isDynamicLoad unknown
  cases t with
  | node kind mark fields =>
    have none : mark.comments = [] := by simpa [isCommented, Tree.mark] using uncommented
    have added : (mark.addComment marker).comments = [marker] := by simp [Mark.addComment, none]
    let commented : Tree := .node kind (mark.addComment marker) fields
    have own : commented.isCommented := by simp [commented, isCommented, Tree.mark, added]
    have region : commented.region? = (node kind mark fields).region? := by
      simp only [commented, region?, Tree.mark, Mark.addComment]
      split <;> rfl
    have revealed : commented.Revealed ↔ (node kind mark fields).Revealed :=
      revealed_mapMark (node kind mark fields) fun mark => mark.addComment marker
    have isNode : commented.kind?.isSome := kinds.elim kind_of_isA kind_of_isA
    have known : commented.Legible := legible_comment legible kinds marker
    change Accounted source marker _ [commented]
    refine ⟨by simpa using reveals_read known isNode, by simpa using revealed, [commented], ?_,
      by simp [unknown, region], by simpa [commented, Tree.mark] using added⟩
    rw [List.flatMap_singleton, marked_node, marked_node]
    simp [own, commented, uncommented]
  | _ => rcases kinds with isA | isA <;> cases isA

/-- Anchored statements conceal comments if and only if the statements do. -/
theorem revealed_anchorAll (region : Region) (added : List Tree) :
    (∀ node ∈ anchorAll region added, node.Revealed) ↔ ∀ u ∈ added, u.Revealed := by
  -- A place conceals nothing.
  have one (u : Tree) (place : Region) : (u.anchor place).Revealed ↔ u.Revealed :=
    revealed_mapMark u _
  fun_induction anchorAll region added with
  | case1 => rfl
  | case2 last => simp [one]
  | case3 u rest _ ih =>
    rw [List.forall_mem_cons, List.forall_mem_cons]
    exact and_congr (one u _) ih

/-- A statement without comments has none when it is anchored. -/
theorem marked_anchor {u : Tree} (uncommented : u.isCommented = false) (region : Region) :
    (u.anchor region).marked = u.marked := by
  -- A place to stand for is no comment.
  cases u with
  | node kind mark fields =>
    have still : (node kind { mark with span := some region } fields).isCommented = false :=
      uncommented
    rw [Tree.anchor, mapMark, marked_node, marked_node]
    simp [still, uncommented]
  | _ => rfl

/-- Anchored statements without comments before them have the comments of the statements. -/
theorem marked_anchorAll (region : Region) {added : List Tree}
    (uncommented : ∀ u ∈ added, u.isCommented = false) :
    (anchorAll region added).flatMap marked = added.flatMap marked := by
  -- A node is only listed with its place if it has comments itself.
  fun_induction anchorAll region added with
  | case1 => rfl
  | case2 last =>
    simpa using marked_anchor (uncommented last List.mem_cons_self) region
  | case3 u rest _ ih =>
    obtain ⟨first, others⟩ := List.forall_mem_cons.mp uncommented
    rw [List.flatMap_cons, List.flatMap_cons, marked_anchor first, ih others]

/-- The last of the statements stands for the whole region. -/
theorem anchorAll_concat (region : Region) (added : List Tree) (last : Tree) :
    anchorAll region (added ++ [last]) =
      added.map (·.anchor ⟨region.start, region.start⟩) ++ [last.anchor region] := by
  -- Statements before the last are anchored to the start of the region.
  induction added with
  | nil => rfl
  | cons u rest ih =>
    rw [List.map_cons, List.cons_append, List.cons_append, ← ih]
    cases rest <;> rfl

/-- A statement that others take the place of, if these have its comments. -/
theorem accounted_replaced {region : Region} {added : List Tree}
    (settled : t.isDynamicLoad = false) (each : ∀ u ∈ added, Discloses source u)
    (revealed : (∀ u ∈ added, u.Revealed) ↔ t.Revealed)
    (uncommented : ∀ u ∈ added, u.isCommented = false) (same : added.flatMap marked = t.marked) :
    Accounted source marker t (anchorAll region added) := by
  -- Anchoring changes neither what is shown nor what is concealed.
  refine ⟨fun node member => ?_, (revealed_anchorAll region added).trans revealed, [], ?_,
    by simp [settled], by simp⟩
  · obtain ⟨u, held, place, rfl⟩ := mem_anchorAll member
    exact ((each u held).anchor place).reveals
  · rw [marked_anchorAll region uncommented, same, List.nil_append]

section Remainder

variable {fates : List Fate} (plain : (t.get "kind").marked = [])

include plain

/-- What is left of a declaration is written with the comments of the declarators. -/
theorem discloses_remainder
    (inner : ∀ left ∈ fates.filterMap Fate.declarator?, Reveals source left) :
    ∀ u ∈ remainder marker t fates, Discloses source u := by
  -- A comment before what is left does not change what follows it.
  have whole := discloses_variableDeclaration plain (revealsAll_of_forall inner)
  intro u member
  rw [eq_of_mem_remainder member]
  split
  · exact whole.comment marker
  · exact whole

/-- What is left of a declaration conceals comments if and only if a declarator does. -/
theorem revealed_remainder :
    (∀ u ∈ remainder marker t fates, u.Revealed) ↔
      ∀ left ∈ fates.filterMap Fate.declarator?, left.Revealed := by
  -- If nothing is left there is nothing to conceal.
  have whole := revealed_variableDeclaration plain (fates.filterMap Fate.declarator?)
  simp only [remainder]
  split
  · rename_i none
    simp [List.isEmpty_iff.mp none]
  · rw [← whole, List.forall_mem_singleton]
    split
    · exact revealed_mapMark _ _
    · rfl

/-- The comments in what becomes of a declaration: one before what is left of it, if a call in it
has an argument that is no string literal, and those of the declarators. -/
theorem marked_remainder (region : Region) {imports : List Tree}
    (unmarked : ∀ u ∈ imports, u.marked = []) :
    ∃ own : List Tree, (anchorAll region (imports ++ remainder marker t fates)).flatMap marked =
        own ++ (fates.filterMap Fate.declarator?).flatMap marked ∧
      own.map region? = (if fates.any Fate.isDynamic then [some region] else []) ∧
      ∀ m ∈ own, m.mark.comments = [marker] := by
  -- Without such a call all is as it was; with one, the last statement is commented.
  have bare : ∀ u ∈ imports, u.isCommented = false :=
    fun u member => not_isCommented_of_fresh (unmarked u member)
  have none : imports.flatMap marked = [] := List.flatMap_eq_nil_iff.mpr unmarked
  have whole := marked_variableDeclaration plain (fates.filterMap Fate.declarator?)
  cases dynamic : fates.any Fate.isDynamic with
  | false =>
    refine ⟨[], ?_, by simp, by simp⟩
    rw [marked_anchorAll, List.flatMap_append, none, List.nil_append, List.nil_append]
    · simp only [remainder, dynamic, Bool.false_eq_true, if_false]
      split
      · rename_i empty
        rw [List.isEmpty_iff.mp empty]
      · rw [List.flatMap_singleton, whole]
    · simp only [remainder, dynamic, Bool.false_eq_true, if_false]
      refine List.forall_mem_append.mpr ⟨bare, ?_⟩
      split
      · simp
      · simp [variableDeclaration, synthetic, isCommented, Tree.mark]
  | true =>
    -- A declarator with such a call is left, so there is a last statement to comment.
    obtain ⟨fate, held, isDynamic⟩ := List.any_eq_true.mp dynamic
    have some : fates.filterMap Fate.declarator? ≠ [] := by
      cases fate with
      | dynamic d =>
        exact List.ne_nil_of_mem (List.mem_filterMap.mpr ⟨_, held, rfl⟩)
      | _ => cases isDynamic
    let last : Tree :=
      (variableDeclaration (t.get "kind") (fates.filterMap Fate.declarator?)).comment marker
    have rest : remainder marker t fates = [last] := by
      simp only [remainder, dynamic, if_true]
      rw [if_neg (by simpa using some)]
    have quiet : (imports.map (·.anchor ⟨region.start, region.start⟩)).flatMap marked = [] := by
      rw [List.flatMap_map, List.flatMap_eq_nil_iff]
      exact fun u member => (marked_anchor (bare u member) _).trans (unmarked u member)
    refine ⟨[last.anchor region], ?_, rfl, List.forall_mem_singleton.mpr rfl⟩
    rw [rest, anchorAll_concat, List.flatMap_append, quiet, List.nil_append, List.flatMap_singleton,
      ← whole]
    rfl

end Remainder

/-- A declaration that something was imported from. -/
theorem accounted_declared {fates : List Fate} (legible : t.Legible)
    (uncommented : t.isCommented = false) (place : t.region? = some t.readRegion)
    (isDeclaration : t.isA "VariableDeclaration")
    (each : List.Forall₂ Becomes (t.get "declarations").items fates)
    (replaced : fates.filterMap Fate.statement? ≠ []) :
    Accounted source marker t (assemble marker t fates) := by
  -- Every declarator leaves its comments with what is left of the declaration.
  have isNode := kind_of_isA isDeclaration
  have shaped := legible.self isNode
  have series := shaped.series "declarations" (by simp)
  have declarators : ∀ d ∈ (t.get "declarations").items, d.Legible ∧ d.isA "VariableDeclarator" :=
    fun d held => ⟨legible.item rfl held, shaped.declared d held⟩
  have holds : heldIn? t.kind? = some ["declarations"] := by rw [beq_iff_eq.mp isDeclaration]; rfl
  -- The kind of the declaration is a word, not a node.
  have plain := @marked_unheld t legible _ holds isNode "kind" rfl (by simp)
  have imports : ∀ u ∈ fates.filterMap Fate.statement?, u.marked = [] ∧ Discloses source u := by
    intro u member
    obtain ⟨fate, known, found⟩ := List.mem_filterMap.mp member
    obtain ⟨d, held, becomes⟩ := exists_becomes each known
    exact becomes.discloses_statement (declarators d held).1 u found
  have lefts : ∀ left ∈ fates.filterMap Fate.declarator?, Reveals source left := by
    intro left member
    obtain ⟨fate, known, found⟩ := List.mem_filterMap.mp member
    obtain ⟨d, held, becomes⟩ := exists_becomes each known
    exact becomes.reveals_declarator (declarators d held).1 (declarators d held).2 left found
  rw [assemble_eq replaced]
  -- What is written, what is concealed, and which comments there are.
  refine ⟨fun node member => ?_, ?_, ?_⟩
  · obtain ⟨u, held, region, rfl⟩ := mem_anchorAll member
    rcases List.mem_append.mp held with first | last
    · exact ((imports u first).2.anchor region).reveals
    · exact ((discloses_remainder plain lefts u last).anchor region).reveals
  · rw [revealed_anchorAll, List.forall_mem_append, revealed_remainder plain,
      revealed_lefts each declarators, revealed_of_isA legible isDeclaration rfl (by decide),
      List.forall_mem_singleton, revealed_series series]
    exact and_iff_right fun u member => revealed_of_unmarked (imports u member).1
  · have whole : (fates.filterMap Fate.declarator?).flatMap marked = t.marked := by
      rw [marked_lefts each declarators, ← marked_series series, marked_held legible holds isNode]
      simp [uncommented]
    have dynamic : t.isDynamicLoad = fates.any Fate.isDynamic := by
      rw [any_isDynamic each, isDynamicLoad, if_pos isDeclaration]
    rw [← whole, place, dynamic]
    exact marked_remainder plain t.readRegion fun u member => (imports u member).1

/-- The comments in an expression statement without comments before it stand in the expression. -/
theorem marked_expression (legible : t.Legible) (uncommented : t.isCommented = false)
    (isExpression : t.isA "ExpressionStatement") : t.marked = (t.get "expression").marked := by
  -- The expression is its only field.
  rw [marked_held legible (by rw [beq_iff_eq.mp isExpression]; rfl) (kind_of_isA isExpression)]
  simp [uncommented]

/-- A call of `require` that an import takes the place of. -/
theorem accounted_loaded {target statement : Tree} (legible : t.Legible)
    (uncommented : t.isCommented = false) (isExpression : t.isA "ExpressionStatement")
    (called : Loader.classify (t.get "expression") = some (.plain target))
    (named : target.stringValue?.isSome) (imports : ImportsFrom target statement) :
    Accounted source marker t (anchorAll t.readRegion [statement]) := by
  -- Neither the statement nor the import has comments.
  have expression : (t.get "expression").Legible := legible.get rfl
  have calls := Loader.calls_of_classify called
  obtain ⟨unmarked, discloses⟩ :=
    @ImportsFrom.discloses source _ _ imports (expression.inside calls.target_subset) named
  have whole : t.marked = [] := by
    rw [marked_expression legible uncommented isExpression, marked_loader expression calls named]
    rfl
  have settled : t.isDynamicLoad = false := by
    rw [isDynamicLoad_expression isExpression, loadsDynamically, called]
    exact Option.isNone_eq_false_iff.mpr named
  refine accounted_replaced settled (List.forall_mem_singleton.mpr discloses) ?_
    (List.forall_mem_singleton.mpr (not_isCommented_of_fresh unmarked)) ?_
  · rw [List.forall_mem_singleton]
    exact iff_of_true (revealed_of_unmarked unmarked) (revealed_of_unmarked whole)
  · rw [List.flatMap_singleton, unmarked, whole]

/-- `module.exports` has no comments in it. -/
theorem marked_moduleExports {u : Tree} (legible : u.Legible) (exports_ : isModuleExports u) :
    u.marked = [] := by
  -- Both of its sides are names.
  have object : (u.get "object").Legible := legible.get rfl
  have property : (u.get "property").Legible := legible.get rfl
  simp only [isModuleExports, isNamed, Bool.and_eq_true] at exports_
  obtain ⟨⟨⟨isMember, _⟩, inner⟩, outer⟩ := exports_
  rw [marked_of_isA legible isMember rfl (by decide)]
  simp [marked_identifier object inner.1, marked_identifier property outer.1]

/-- An assignment to `module.exports` that exports take the place of. -/
theorem accounted_exported {value : Tree} (legible : t.Legible)
    (uncommented : t.isCommented = false) (isExpression : t.isA "ExpressionStatement")
    (other : Loader.classify (t.get "expression") = none)
    (assigned : exportsValue? t = some value) (object : value.isA "ObjectExpression")
    (pairs : List (Text × Text)) :
    Accounted source marker t (anchorAll t.readRegion
      ((if pairs.isEmpty then [] else [.exportNamed pairs]) ++ [.exportDefault value])) := by
  -- The left side is a member without comments, and the value stays as it is.
  have expression : (t.get "expression").Legible := legible.get rfl
  obtain ⟨isAssignment, exports_, right⟩ := assigns_of_exportsValue assigned
  have left := marked_moduleExports (expression.get rfl) exports_
  have known : value.Legible := legible.inside (parts_exportsValue assigned)
  have settled : t.isDynamicLoad = false := by
    rw [isDynamicLoad_expression isExpression, loadsDynamically, other]
    rfl
  have whole : t.marked = value.marked := by
    rw [marked_expression legible uncommented isExpression,
      marked_of_isA expression isAssignment rfl (by decide), right]
    simp [left]
  have revealed : t.Revealed ↔ value.Revealed := by
    rw [revealed_of_isA legible isExpression rfl (by decide), List.forall_mem_singleton,
      revealed_of_isA expression isAssignment rfl (by decide), right]
    simp [revealed_of_unmarked left]
  -- The names that are exported come without comments, and the value with its own.
  let names : List Tree := if pairs.isEmpty then [] else [.exportNamed pairs]
  have unmarked : ∀ u ∈ names, u.marked = [] ∧ Discloses source u := by
    simp only [names]
    split
    · simp
    · exact List.forall_mem_singleton.mpr (discloses_exportNamed pairs)
  refine accounted_replaced settled (List.forall_mem_append.mpr ⟨fun u held => (unmarked u held).2,
    List.forall_mem_singleton.mpr (discloses_exportDefault (reveals_read known
      (kind_of_isA object)))⟩) ?_ (List.forall_mem_append.mpr
        ⟨fun u held => not_isCommented_of_fresh (unmarked u held).1,
          List.forall_mem_singleton.mpr rfl⟩) ?_
  · rw [List.forall_mem_append, List.forall_mem_singleton, revealed_exportDefault, revealed]
    exact and_iff_right fun u held => revealed_of_unmarked (unmarked u held).1
  · have none : names.flatMap marked = [] :=
      List.flatMap_eq_nil_iff.mpr fun u held => (unmarked u held).1
    rw [List.flatMap_append, none, List.flatMap_singleton, marked_exportDefault, whole]
    rfl

/-- What a statement without comments before it can become has its comments. -/
theorem Outcome.accounted {nodes : List Tree} (outcome : Outcome marker t nodes)
    (legible : t.Legible) (isNode : t.kind?.isSome) (uncommented : t.isCommented = false)
    (spanless : t.mark.span = none) : Accounted source marker t nodes := by
  -- One case for each way a statement can go.
  cases outcome with
  | kept settled => exact accounted_kept legible isNode settled
  | dynamic unknown => exact accounted_dynamic legible uncommented unknown
  | declared isDeclaration each some =>
    refine accounted_declared legible uncommented ?_ isDeclaration each some
    -- The statement was read and not moved, so it stands for its own range.
    obtain ⟨region, range⟩ := Option.isSome_iff_exists.mp (legible.self isNode).read
    rw [region?, spanless, readRegion, range]
    exact range
  | loaded isExpression called named imports =>
    exact accounted_loaded legible uncommented isExpression called named imports
  | exported isExpression other assigned object pairs =>
    exact accounted_exported legible uncommented isExpression other assigned object pairs

end Statements

end Lift

end ModuleLift
