import ModuleLift.Proofs.Lift.Rest

/-! How a declaration is divided into imports and what is left of it: each declarator has its share,
and the statements stand one after the other for the text of the declaration. -/

namespace ModuleLift

namespace Region

/-- The regions of some statements that stand for one: the last has all of it, and the others have
its start. -/
def allot (region : Region) (count : Nat) : List Region :=
  List.replicate (count - 1) ⟨region.start, region.start⟩ ++ [region]

end Region

namespace Tree

/-- Whether a statement holds a declarator of a declaration that calls `require` with something that
is no string literal. -/
def HoldsDynamic (declaration t : Tree) : Prop :=
  ∃ d ∈ (t.get "declarations").items,
    d ∈ (declaration.get "declarations").items ∧ (d.get "init").loadsDynamically

/-- A declarator with such a call is not taken apart. -/
theorem isLowered_of_loadsDynamically {d : Tree} (dynamic : (d.get "init").loadsDynamically) :
    d.isLowered = false := by
  -- Without a module to name, no import can be made.
  rw [loadsDynamically] at dynamic
  cases called : Loader.classify (d.get "init") with
  | none => simp [called] at dynamic
  | some loader =>
    rw [called, Option.any_some, Option.isNone_iff_eq_none] at dynamic
    exact isLowered_of_unnamed called dynamic

/-- A place leaves the comments of a statement. -/
@[simp] theorem comments_anchor (t : Tree) (region : Region) :
    (t.anchor region).mark.comments = t.mark.comments := by
  cases t <;> rfl

/-- What is of a kind is a node. -/
theorem isNode_of_isA {t : Tree} {kind : String} (isA : t.isA kind) : t.isNode := by
  -- Nothing else has a kind.
  cases t with
  | node => rfl
  | _ => cases isA

/-- A comment is there once if it was there at most once. -/
theorem count_comments_comment {t : Tree} (isNode : t.isNode) {text : Text}
    (once : t.mark.comments.count text ≤ 1) : (t.comment text).mark.comments.count text = 1 := by
  have there := List.count_pos_iff.mpr (mem_comments_comment isNode text)
  cases t with
  | node kind mark fields =>
    rw [comment, mapMark, Tree.mark, Mark.addComment] at there ⊢
    -- A comment that is there already is not put a second time.
    split at there
    · rw [if_pos ‹_›]
      exact Nat.le_antisymm once there
    · rename_i absent
      rw [if_neg absent, List.count_append, List.count_singleton_self,
        List.count_eq_zero.mpr (by simpa using absent)]
  | _ => cases isNode

end Tree

namespace Lift

/-- One region is allotted to each statement. -/
theorem anchorAll_eq_zipWith (region : Region) (ts : List Tree) :
    anchorAll region ts = List.zipWith Tree.anchor ts (region.allot ts.length) := by
  -- All but the last statement get no room, and the last gets the region.
  fun_induction anchorAll region ts with
  | case1 => rfl
  | case2 last => rfl
  | case3 t rest more ih =>
    obtain ⟨next, others, rfl⟩ := List.exists_cons_of_ne_nil more
    rw [ih]
    rfl

/-- As many statements are anchored as are given. -/
theorem length_anchorAll (region : Region) (ts : List Tree) :
    (anchorAll region ts).length = ts.length := by
  -- The recursion anchors one statement after the other.
  fun_induction anchorAll region ts with
  | case1 => rfl
  | case2 last => rfl
  | case3 t rest _ ih => rw [List.length_cons, List.length_cons, ih]

/-- Nodes stand for what they are allotted. -/
theorem region?_anchorAll (region : Region) {ts : List Tree} (nodes : ∀ t ∈ ts, t.isNode)
    (nonempty : ts ≠ []) :
    (anchorAll region ts).map Tree.region? = (region.allot ts.length).map some := by
  fun_induction anchorAll region ts with
  | case1 => exact absurd rfl nonempty
  | case2 last =>
    exact congrArg ([·]) (Tree.region?_anchor (nodes last List.mem_cons_self) region)
  | case3 t rest more ih =>
    -- All but the last stand for the start of the region, where nothing is.
    have first := Tree.region?_anchor (nodes t List.mem_cons_self) ⟨region.start, region.start⟩
    have later := ih (fun u held => nodes u (List.mem_cons_of_mem _ held)) more
    obtain ⟨next, others, rfl⟩ := List.exists_cons_of_ne_nil more
    rw [List.map_cons, first, later]
    rfl

section Shares

variable (s : Surroundings)

/-- The imports made for a declarator, and the declarators left of it. -/
inductive Shares (d : Tree) : List Tree → List Tree → Prop where
  | kept (unfit : d.isLowered = false) : Shares d [] [d]
  | removed {loader : Loader} {module : Text} {specifiers : List Tree} {source : Tree}
      (fit : d.isTaken) (called : Loader.classify (d.get "init") = some loader)
      (named : loader.module? = some module)
      (imports : ImportsModule s module (.importFrom specifiers source))
      (binds : (Tree.importFrom specifiers source).localNames = (d.get "id").patternNames) :
      Shares d [.importFrom specifiers source] []
  | factored {target source : Tree} {arguments : List Tree} {module factory : Text}
      (fit : d.takesFactory)
      (called : Loader.classify (d.get "init") = some (.factory target arguments))
      (named : target.stringValue? = some module)
      (imports : ImportsModule s module (.importDefault factory source)) :
      Shares d [.importDefault factory source]
        [.variableDeclarator (d.get "id") (.call (.identifier factory) arguments)]

variable {s} {d : Tree} {imports left : List Tree}

/-- What becomes of a declarator are its shares. -/
theorem Settles.shares {bound : List Text} {fate : Fate} {own : List Diagnostic}
    (settles : Settles s bound d fate own) :
    Shares s d fate.statement?.toList fate.declarator?.toList := by
  -- A declarator that is not lowered is its own share; the others have an import as well.
  have lowered := settles.isSome_statement
  cases settles with
  | uncalled => exact .kept lowered.symm
  | unnamed => exact .kept lowered.symm
  | refused => exact .kept lowered.symm
  | taken _ called named fit names _ binds =>
    exact .removed fit called named (names.importsModule named _) binds
  | factored _ called named fit names =>
    exact .factored fit called named (names.importsModule named _)

/-- A declarator that is not lowered is left. -/
theorem Shares.left_of_whole (shares : Shares s d imports left) (unfit : d.isLowered = false) :
    left = [d] := by
  -- The other two ways are those of lowered declarators.
  cases shares with
  | kept => rfl
  | removed fit => simp [Tree.isLowered, fit] at unfit
  | factored fit => simp [Tree.isLowered, fit] at unfit

/-- An import is made exactly for the declarators that are lowered. -/
theorem Shares.imports_eq_nil (shares : Shares s d imports left) :
    imports = [] ↔ d.isLowered = false := by
  -- Each way says both what is made and what the declarator is like.
  cases shares with
  | kept unfit => exact ⟨fun _ => unfit, fun _ => rfl⟩
  | removed fit => simp [Tree.isLowered, fit]
  | factored fit => simp [Tree.isLowered, fit]

/-- All of them are imports. -/
theorem Shares.import_eq (shares : Shares s d imports left) {u : Tree} (made : u ∈ imports) :
    ∃ specifiers source, u = .importFrom specifiers source := by
  -- There is at most one, and its form is known.
  cases shares with
  | kept => cases made
  | removed => exact ⟨_, _, List.mem_singleton.mp made⟩
  | factored => exact ⟨_, _, List.mem_singleton.mp made⟩

/-- All declarators have their shares. -/
theorem shares_declarators (s : Surroundings) (ds : List Tree) (p : Progress) :
    List.Forall₂ (fun d fate => Shares s d fate.statement?.toList fate.declarator?.toList) ds
      (declarators s ds p).1 := by
  -- Each declarator is settled, whatever names are taken by then.
  refine (settled_declarators s ds p).imp ?_
  rintro d fate ⟨bound, own, settles⟩
  exact settles.shares

end Shares

section Parts

variable {s : Surroundings} {t : Tree} {ds : List Tree} {fates : List Fate}
  (each : List.Forall₂
    (fun d fate => Shares s d fate.statement?.toList fate.declarator?.toList) ds fates)

include each

/-- No import is made if no declarator is lowered. -/
theorem statements_eq_nil :
    fates.filterMap Fate.statement? = [] ↔ ∀ d ∈ ds, d.isLowered = false := by
  -- The induction goes along the declarators with their fates.
  induction each with
  | nil => simp
  | @cons d fate _ _ shares _ ih =>
    have here : fate.statement? = none ↔ d.isLowered = false :=
      Option.toList_eq_nil_iff.symm.trans shares.imports_eq_nil
    rw [List.forall_mem_cons, ← ih, ← here, List.filterMap_eq_nil_iff, List.forall_mem_cons,
      List.filterMap_eq_nil_iff]

/-- Declarators that are not lowered are left. -/
theorem left_eq (whole : ∀ d ∈ ds, d.isLowered = false) :
    fates.filterMap Fate.declarator? = ds := by
  -- Each declarator is left as it is.
  induction each with
  | nil => rfl
  | @cons d fate _ _ shares _ ih =>
    have left := shares.left_of_whole (whole d List.mem_cons_self)
    rw [List.filterMap_cons_some (Option.toList_eq_singleton_iff.mp left),
      ih fun d held => whole d (List.mem_cons_of_mem _ held)]

/-- All statements made for declarators are imports. -/
theorem import_of_mem {u : Tree} (made : u ∈ fates.filterMap Fate.statement?) :
    ∃ specifiers source, u = .importFrom specifiers source := by
  -- Such a statement is the share of one declarator.
  obtain ⟨fate, held, found⟩ := List.mem_filterMap.mp made
  obtain ⟨d, _, shares⟩ := exists_of_forall₂ each.flip held
  exact shares.import_eq (by rw [found]; exact List.mem_singleton_self u)

/-- The declarators with calls that stay are left. -/
theorem mem_left_of_dynamic {d : Tree} (held : d ∈ ds)
    (dynamic : (d.get "init").loadsDynamically) : d ∈ fates.filterMap Fate.declarator? := by
  -- Such a declarator is not lowered.
  obtain ⟨fate, member, shares⟩ := exists_of_forall₂ each held
  have left := shares.left_of_whole (Tree.isLowered_of_loadsDynamically dynamic)
  exact List.mem_filterMap.mpr ⟨fate, member, Option.toList_eq_singleton_iff.mp left⟩

end Parts

section Remainder

variable {marker : Text} {t u : Tree} {fates : List Fate}

/-- What is left of a declaration is one of the same kind, with a comment if a call stays. -/
theorem mem_remainder (held : u ∈ remainder marker t fates) :
    u.isA "VariableDeclaration" ∧ u.get "kind" = t.get "kind" ∧
      (u.get "declarations").items = fates.filterMap Fate.declarator? ∧
      u.mark.comments = if fates.any Fate.isDynamic then [marker] else [] := by
  -- There is at most one statement left, put together from the declarators that are.
  rw [eq_of_mem_remainder held]
  split <;> exact ⟨rfl, rfl, rfl, rfl⟩

/-- Nothing is left of a declaration if no declarator is. -/
theorem remainder_eq_nil :
    remainder marker t fates = [] ↔ fates.filterMap Fate.declarator? = [] := by
  -- A declaration without declarators is not made.
  simp only [remainder]
  split <;> simp_all

/-- At most one statement is left of a declaration. -/
theorem length_remainder : (remainder marker t fates).length ≤ 1 := by
  -- All declarators that are left stand in one.
  simp only [remainder]
  split <;> simp

end Remainder

/-- How some statements stand for a declaration. -/
structure Stands (marker : Text) (t : Tree) (output : List Tree) : Prop where
  /-- The last stands for the text of the declaration, the others for its start. -/
  regions : ∀ region, t.range? = some region → t.mark.span = none →
    output.map Tree.region? = (region.allot output.length).map some
  /-- A declarator with a call that stays is in one of them. -/
  holds : ∀ d ∈ (t.get "declarations").items, (d.get "init").loadsDynamically →
    ∃ u ∈ output, t.HoldsDynamic u
  /-- That one has the comment once. -/
  commented : ∀ u ∈ output, t.HoldsDynamic u → t.mark.comments.count marker ≤ 1 →
    u.mark.comments.count marker = 1
  /-- Another has it only if it is the declaration, which had it before. -/
  others : ∀ u ∈ output, ¬t.HoldsDynamic u → marker ∈ u.mark.comments → u = t

section Stands

variable {s : Surroundings} {t : Tree} {fates : List Fate}

/-- A declaration that stays. -/
theorem stands_whole (marker : Text) (t : Tree) :
    Stands marker t [if (t.get "declarations").items.any fun d => (d.get "init").loadsDynamically
      then t.comment marker else t] := by
  have same : ∀ key, (t.comment marker).get key = t.get key := fun key => by
    rw [Tree.comment, Tree.get_mapMark]
  have place : ∀ region, t.range? = some region → t.mark.span = none →
      t.region? = some region := by
    intro region read free
    rw [Tree.region?, free]
    exact read
  cases dynamic : (t.get "declarations").items.any fun d => (d.get "init").loadsDynamically with
  | false =>
    have none : ∀ d ∈ (t.get "declarations").items, ¬(d.get "init").loadsDynamically :=
      List.any_eq_false.mp dynamic
    refine ⟨fun region read free => congrArg ([·]) (place region read free),
      fun d held found => absurd found (none d held), fun u held => ?_,
      fun u held _ _ => List.mem_singleton.mp held⟩
    · rw [List.mem_singleton.mp held]
      rintro ⟨d, member, _, found⟩
      exact absurd found (none d member)
  | true =>
    obtain ⟨d, held, found⟩ := List.any_eq_true.mp dynamic
    have isNode : t.isNode := by
      cases t with
      | node => rfl
      | _ => cases held
    -- The declaration is the statement with the call, and it is the only one.
    have holds : t.HoldsDynamic (t.comment marker) := ⟨d, by rwa [same], held, found⟩
    refine ⟨fun region read free => ?_, fun _ _ _ => ⟨_, List.mem_singleton_self _, holds⟩,
      fun u member _ once => ?_, fun u member absent => ?_⟩
    · exact congrArg ([·]) ((Tree.region?_comment t marker).trans (place region read free))
    · rw [List.mem_singleton.mp member]
      exact Tree.count_comments_comment isNode once
    · rw [List.mem_singleton.mp member] at absent
      exact absurd holds absent

/-- A declaration that is divided. -/
theorem stands_divided (each : List.Forall₂
      (fun d fate => Shares s d fate.statement?.toList fate.declarator?.toList)
      (t.get "declarations").items fates)
    (dynamic : fates.any Fate.isDynamic =
      (t.get "declarations").items.any fun d => (d.get "init").loadsDynamically)
    (imports : fates.filterMap Fate.statement? ≠ []) :
    Stands s.marker t (anchorAll t.readRegion
      (fates.filterMap Fate.statement? ++ remainder s.marker t fates)) := by
  -- An import holds no declarators and has no comments.
  have import_silent {u : Tree} {place : Region} (made : u ∈ fates.filterMap Fate.statement?) :
      (u.anchor place).mark.comments = [] ∧ ¬t.HoldsDynamic (u.anchor place) := by
    obtain ⟨specifiers, source, rfl⟩ := import_of_mem each made
    refine ⟨rfl, ?_⟩
    rintro ⟨d, held, _⟩
    cases held
  -- What is left holds all declarators with a call that stays.
  have left_holds {u : Tree} {place : Region} (held : u ∈ remainder s.marker t fates) :
      t.HoldsDynamic (u.anchor place) ↔ fates.any Fate.isDynamic := by
    have declared : ((u.anchor place).get "declarations").items =
        fates.filterMap Fate.declarator? := by
      rw [Tree.anchor, Tree.get_mapMark, (mem_remainder held).2.2.1]
    rw [dynamic, List.any_eq_true]
    constructor
    · rintro ⟨d, _, own, found⟩
      exact ⟨d, own, found⟩
    · rintro ⟨d, own, found⟩
      exact ⟨d, declared ▸ mem_left_of_dynamic each own found, own, found⟩
  refine ⟨fun region read _ => ?_, fun d held found => ?_, fun u held holds _ => ?_,
    fun u held free there => ?_⟩
  · have nodes : ∀ u ∈ fates.filterMap Fate.statement? ++ remainder s.marker t fates, u.isNode := by
      intro u held
      rcases List.mem_append.mp held with made | rest
      · obtain ⟨specifiers, source, rfl⟩ := import_of_mem each made
        rfl
      · exact Tree.isNode_of_isA (mem_remainder rest).1
    have place : t.readRegion = region := by rw [Tree.readRegion, read, Option.getD_some]
    rw [length_anchorAll, region?_anchorAll _ nodes (by simp [imports]), place]
  · -- There is something left, since the declarator is.
    have left : remainder s.marker t fates ≠ [] := fun none =>
      List.ne_nil_of_mem (mem_left_of_dynamic each held found) (remainder_eq_nil.mp none)
    obtain ⟨u, rest⟩ := List.exists_mem_of_ne_nil _ left
    obtain ⟨place, member⟩ :=
      exists_anchor_mem t.readRegion (List.mem_append_right (fates.filterMap Fate.statement?) rest)
    exact ⟨_, member, (left_holds rest).mpr (dynamic ▸ List.any_eq_true.mpr ⟨d, held, found⟩)⟩
  · obtain ⟨v, member, place, rfl⟩ := mem_anchorAll held
    rcases List.mem_append.mp member with made | rest
    · exact absurd holds (import_silent made).2
    · rw [Tree.comments_anchor, (mem_remainder rest).2.2.2, if_pos ((left_holds rest).mp holds)]
      exact List.count_singleton_self ..
  · obtain ⟨v, member, place, rfl⟩ := mem_anchorAll held
    rcases List.mem_append.mp member with made | rest
    · simp [(import_silent made).1] at there
    · rw [Tree.comments_anchor, (mem_remainder rest).2.2.2,
        if_neg (mt (left_holds rest).mpr free)] at there
      cases there

end Stands

end Lift

open Lift in
/-- A declaration is divided among its declarators. Each is kept, gives way to one import, or is
replaced at its place by a call of a factory that one import binds. The imports come first, and what
is left follows as one declaration of the same kind; a declaration from which nothing is imported
stays. The last statement stands for the text of the declaration and the others for its start, so
that it has to be known where the declaration was read if there are imports. The comment is put,
once, on the statement with a call that stays. -/
theorem declaration_divides (s : Surroundings) (t : Tree) (p : Progress) :
    let ds := (t.get "declarations").items
    let placed := (replaceDeclaration s t p).1.place t
    ∃ fates : List Fate,
      List.Forall₂ (fun d fate => Shares s d fate.statement?.toList fate.declarator?.toList)
        ds fates ∧
      let imports := fates.filterMap Fate.statement?
      let left := fates.filterMap Fate.declarator?
      (imports = [] ↔ ∀ d ∈ ds, d.isLowered = false) ∧
      (imports = [] → left = ds ∧ placed = .ok
        [if ds.any fun d => (d.get "init").loadsDynamically then t.comment s.marker else t]) ∧
      (imports ≠ [] → ∃ rest : List Tree, rest.length ≤ 1 ∧ (rest = [] ↔ left = []) ∧
        (∀ u ∈ rest, u.isA "VariableDeclaration" ∧ u.get "kind" = t.get "kind" ∧
          (u.get "declarations").items = left) ∧
        (∀ region, t.range? = some region → placed = .ok (List.zipWith Tree.anchor
          (imports ++ rest) (region.allot (imports ++ rest).length))) ∧
        (t.range? = none → placed = .error .noRange)) ∧
      ∀ output, placed = .ok output → Stands s.marker t output := by
  intro ds placed
  have each := shares_declarators s ds p
  have dynamic := any_isDynamic (declarators_become s ds p)
  have joined : placed = (joinFates s.marker t (declarators s ds p).1).place t := rfl
  -- From here on only what each declarator becomes matters.
  generalize (declarators s ds p).1 = fates at each dynamic joined
  refine ⟨fates, each, statements_eq_nil each, fun none => ⟨?_, ?_⟩, fun some => ?_,
    fun output known => ?_⟩
  · exact left_eq each ((statements_eq_nil each).mp none)
  · rw [joined, joinFates_whole none, dynamic]
    rfl
  · rw [joinFates_eq some, Replacement.place] at joined
    refine ⟨remainder s.marker t fates, length_remainder, remainder_eq_nil, fun u held => ?_,
      fun region read => ?_, fun unread => ?_⟩
    · obtain ⟨isDeclaration, kind, declared, _⟩ := mem_remainder held
      exact ⟨isDeclaration, kind, declared⟩
    · rw [joined, read]
      exact congrArg Except.ok (anchorAll_eq_zipWith ..)
    · rw [joined, unread]
  · rw [joined, Replacement.place_eq] at known
    split at known
    · cases known
    · cases known
      change Stands s.marker t (assemble s.marker t fates)
      by_cases none : fates.filterMap Fate.statement? = []
      · rw [assemble_whole none, dynamic]
        exact stands_whole s.marker t
      · rw [assemble_eq none]
        exact stands_divided each dynamic none

/-- The text `let a = require('a'), b = require(c), d = require('d')(e), f;`. -/
def dividedSample : Tree :=
  let read (kind : String) (start stop : Nat) (fields : List (String × Tree)) : Tree :=
    .node (some kind) { range := some ⟨start, stop⟩ } fields
  let name (text : Text) (start stop : Nat) : Tree :=
    read "Identifier" start stop [("name", .text text)]
  let literal (value raw : Text) (start stop : Nat) : Tree :=
    read "Literal" start stop [("value", .text value), ("raw", .text raw)]
  let load (start stop : Nat) (argument : Tree) : Tree := read "CallExpression" start stop
    [("callee", name "require" start (start + 7)), ("arguments", .list [argument])]
  let bound (start stop : Nat) (id init : Tree) : Tree :=
    read "VariableDeclarator" start stop [("id", id), ("init", init)]
  read "VariableDeclaration" 0 61 [("declarations", .list [
    bound 4 20 (name "a" 4 5) (load 8 20 (literal "a" "'a'" 16 19)),
    bound 22 36 (name "b" 22 23) (load 26 36 (name "c" 34 35)),
    bound 38 57 (name "d" 38 39) (read "CallExpression" 42 57
      [("callee", load 42 54 (literal "d" "'d'" 50 53)), ("arguments", .list [name "e" 55 56])]),
    bound 59 60 (name "f" 59 60) .null]), ("kind", .text "let")]

open Lift in
/-- One declarator is removed, one is replaced, and two are kept, of which one needs the comment. -/
theorem declaration_divides_sample :
    let s : Surroundings := { isFile := fun _ => false }
    ∃ output, (replaceDeclaration s dividedSample (.ofLedger {})).1.place dividedSample =
        .ok output ∧
      output.map Tree.kind? =
        [some "ImportDeclaration", some "ImportDeclaration", some "VariableDeclaration"] ∧
      output.map Tree.region? = [some ⟨0, 0⟩, some ⟨0, 0⟩, some ⟨0, 61⟩] ∧
      ∃ u ∈ output, dividedSample.HoldsDynamic u ∧ u.mark.comments.count s.marker = 1 := by
  intro s
  obtain ⟨_, _, _, _, _, each⟩ := declaration_divides s dividedSample (.ofLedger {})
  -- The sample was read, so its place is known.
  have stands := each _ rfl
  have dynamic : ∃ d ∈ (dividedSample.get "declarations").items,
      (d.get "init").loadsDynamically := by decide
  obtain ⟨d, held, found⟩ := dynamic
  obtain ⟨u, member, holds⟩ := stands.holds d held found
  exact ⟨_, rfl, by decide, stands.regions ⟨0, 61⟩ rfl rfl, u, member, holds,
    stands.commented u member holds (by decide)⟩

end ModuleLift
