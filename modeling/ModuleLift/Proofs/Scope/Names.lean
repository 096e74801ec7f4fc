import ModuleLift.Proofs.Scope.Journal
import ModuleLift.Proofs.Tree.Skeleton

/-! The names an analysis binds, told from the tree alone: scopes count only as the program's own
or another. -/

namespace ModuleLift

namespace Journal

/-- The names bound so far, each with whether it is bound in the first scope. -/
def entries (j : Journal) : List (Bool × Text) :=
  j.bindings.map fun entry => (entry.1 == 0, entry.2.name)

/-- A scope that is opened binds no name. -/
@[simp] theorem entries_open (j : Journal) (scope : ScopeEntry) :
    (j.open_ scope).entries = j.entries := rfl

/-- A call of `eval` binds no name. -/
@[simp] theorem entries_noteEval (j : Journal) (call : EvalCall) :
    (j.noteEval call).entries = j.entries := rfl

/-- A name is bound at the end of the record. -/
@[simp] theorem entries_bind (j : Journal) (scope : Nat) (binding : Binding) :
    (j.bind scope binding).entries = j.entries ++ [(scope == 0, binding.name)] := by
  simp [entries, bind]

end Journal

namespace Scope

/-- A place up to the numbers of inner scopes. -/
def Place.outline (p : Place) : Place := { scope := min p.scope 1, hoist := min p.hoist 1 }

/-- The place for `var` is told by the outline. -/
@[simp] theorem Place.outline_hoisted (p : Place) : p.outline.hoisted = p.hoisted.outline := rfl

/-- In outline, every scope inside the program's own has the same number. -/
theorem Place.outline_inside (p : Place) (kind : ScopeKind) {number : Nat} (inner : number ≠ 0) :
    p.outline.inside kind 1 = (p.inside kind number).outline := by
  -- Only a function changes both numbers.
  have fresh : min number 1 = 1 := by omega
  rw [outline, inside, inside, outline, fresh]
  split
  · rw [fresh]
  · rfl

namespace Task

/-- A record with the program's own scope and nothing else. -/
def rooted : Journal := { scopes := [{ kind := .global, node := .null, parent := none }] }

/-- A task up to marks and the numbers of inner scopes. -/
def outline : Task Place → Task Place
  | .visit place t => .visit place.outline t.skeleton
  | .pattern kind place t => .pattern kind place.outline t.skeleton
  | .name kind place t => .name kind place.outline t.skeleton
  | .handler place t => .handler place.outline t.skeleton
  | .classBody place ownName t => .classBody place.outline ownName t.skeleton

/-- The name a task binds itself. -/
def own : Task Place → List (Bool × Text)
  | .name _ place t => if t.isIdentifier then [(place.scope == 0, t.name)] else []
  | _ => []

/-- The names a task binds with all that it leaves to do, in order, each with whether it is bound in
the program's own scope. -/
def binds (task : Task Place) : List (Bool × Text) :=
  task.own ++ (expand rooted task).2.attach.flatMap fun ⟨rest, _⟩ => rest.binds
termination_by task.rank
decreasing_by
  rename_i left
  exact rank_lt_of_mem_expand left

/-- A task binds its own name and what the tasks bind that it leaves. -/
theorem binds_eq (task : Task Place) :
    task.binds = task.own ++ (expand rooted task).2.flatMap binds := by
  -- The definition carries membership proofs along, which are dropped here.
  rw [binds]
  simp

/-- A property holds of all tasks if each inherits it from those it leaves. -/
@[elab_as_elim]
theorem induction {motive : Task Place → Prop}
    (step : ∀ task, (∀ j : Journal, ∀ rest ∈ (expand j task).2, motive rest) → motive task)
    (task : Task Place) : motive task :=
  step task fun _ rest _ => Task.induction step rest
termination_by task.rank
decreasing_by
  rename_i left
  exact rank_lt_of_mem_expand left

/-- A task is carried out by a step and by the tasks that it leaves, in order. -/
theorem run_eq {ρ σ : Type} [Keeper ρ σ] (task : Task σ) (r : ρ) :
    task.run r = (expand r task).2.foldl (fun r rest => rest.run r) (expand r task).1 := by
  -- The definition carries membership proofs along, which are dropped here.
  rw [run]
  simp

section Outline

variable {j : Journal}

/-- What a function leaves to do, up to marks and numbers, is told by its outline. -/
theorem ofFunction_outline (inner : j.next ≠ 0) (place : Place) (t : Tree) (ownName : Bool) :
    (ofFunction rooted place.outline t.skeleton ownName).2 =
      (ofFunction j place t ownName).2.map outline := by
  -- A body in braces is walked without the block around it, in both trees.
  have first : rooted.next = 1 := rfl
  have body : (if (t.get "body").isA "BlockStatement" then ((t.get "body").get "body").skeleton
      else (t.get "body").skeleton) =
      (if (t.get "body").isA "BlockStatement" then (t.get "body").get "body"
        else t.get "body").skeleton := by
    split <;> rfl
  cases ownName <;>
    simp [ofFunction, outline, place.outline_inside _ inner, first, Function.comp_def, body]

/-- The same of a catch clause. -/
theorem ofHandler_outline (inner : j.next ≠ 0) (place : Place) (t : Tree) :
    (ofHandler rooted place.outline t.skeleton).2 = (ofHandler j place t).2.map outline := by
  -- A clause opens one scope, which is inside the program in any record.
  have first : rooted.next = 1 := rfl
  simp [ofHandler, outline, place.outline_inside _ inner, first]

/-- The same of a declaration; where its names go does not depend on the record. -/
theorem ofDeclaration_outline (place : Place) (t : Tree) :
    ofDeclaration rooted place.outline t.skeleton = (ofDeclaration j place t).map outline := by
  -- The word of the declaration is a text, which the skeleton keeps.
  have kind : bindingKind (t.get "kind").skeleton = bindingKind (t.get "kind") := by
    simp [bindingKind, Tree.isText]
  simp only [ofDeclaration, Tree.get_skeleton, kind, Tree.items_skeleton, List.flatMap_map,
    List.map_flatMap]
  split <;> simp [outline]

/-- The same of any node. -/
theorem ofNode_outline (inner : j.next ≠ 0) (place : Place) (t : Tree) :
    (ofNode rooted place.outline t.skeleton).2 = (ofNode j place t).2.map outline := by
  -- Kinds are the same on both sides, so both take the same rule.
  have first : rooted.next = 1 := rfl
  simp only [ofNode, Tree.kind?_skeleton]
  split
  · simp [outline]
  · simp [outline, place.outline_inside _ inner, first]
  · exact ofDeclaration_outline place t
  · simp [outline, Function.comp_def]
  · rw [ofFunction_outline inner]
    simp [outline]
  · exact ofFunction_outline inner ..
  · exact ofFunction_outline inner ..
  · exact ofFunction_outline inner ..
  · simp [outline]
  · simp [outline]
  · simp [outline]
  · simp [outline]
  · simp only [Tree.get_skeleton, Tree.isNode_skeleton]
    split <;> simp [outline]
  · exact ofHandler_outline inner ..
  · simp [outline, List.filter_map, Tree.skeletonField, Function.comp_def]

/-- The same of a pattern. -/
theorem ofPattern_outline (kind : BindingKind) (place : Place) (t : Tree) :
    ofPattern kind place.outline t.skeleton = (ofPattern kind place t).map outline := by
  -- One case for each kind of pattern, as in the rule for patterns.
  simp only [ofPattern, Tree.kind?_skeleton]
  split
  · simp [outline]
  · simp only [Tree.get_skeleton, Tree.items_skeleton, List.flatMap_map, List.map_flatMap]
    refine List.flatMap_congr fun property _ => ?_
    cases isProperty : property.isA "Property" <;>
      cases computed : (property.get "computed").isSet <;> simp [outline, isProperty, computed]
  · simp [outline, Function.comp_def]
  · simp [outline]
  · simp [outline]
  · rfl

/-- What a task leaves to do, up to marks and numbers, is told by its outline. -/
theorem expand_outline (inner : j.next ≠ 0) (task : Task Place) :
    (expand rooted task.outline).2 = (expand j task).2.map outline := by
  -- A value that is no node leaves nothing to do, and each kind of task has its own rule for nodes.
  cases task with
  | visit place t =>
    cases t with
    | list items => simp [outline, expand, Function.comp_def]
    | node kind mark fields =>
      have same := ofNode_outline inner place (.node kind mark fields)
      rw [Tree.skeleton_node] at same
      rw [outline, Tree.skeleton_node]
      exact same
    | _ => rfl
  | pattern kind place t =>
    cases t with
    | node name mark fields =>
      have same := ofPattern_outline kind place (.node name mark fields)
      rw [Tree.skeleton_node] at same
      rw [outline, Tree.skeleton_node]
      exact same
    | _ => rfl
  | name kind scope t => rfl
  | handler place t =>
    cases t with
    | node kind mark fields =>
      have same := ofHandler_outline inner place (.node kind mark fields)
      rw [Tree.skeleton_node] at same
      rw [outline, Tree.skeleton_node]
      exact same
    | _ => rfl
  | classBody place ownName t =>
    have first : rooted.next = 1 := rfl
    cases t with
    | node kind mark fields =>
      have body := Tree.get_skeleton (.node kind mark fields) "body"
      have id := Tree.get_skeleton (.node kind mark fields) "id"
      obtain ⟨blank, shape⟩ : ∃ blank, (Tree.node kind mark fields).skeleton =
          .node kind blank (fields.map Tree.skeletonField) := ⟨_, Tree.skeleton_node ..⟩
      rw [shape] at body id
      rw [outline, shape]
      cases ownName <;> simp [expand, outline, place.outline_inside _ inner, first, body, id]
    | _ => rfl

/-- The name a task binds itself is told by its outline. -/
theorem own_outline (task : Task Place) : task.outline.own = task.own := by
  -- In outline a scope is the first one if it was the first one.
  cases task with
  | name kind place t =>
    have same : (place.outline.scope == 0) = (place.scope == 0) := by
      rw [Bool.eq_iff_iff, beq_iff_eq, beq_iff_eq, Place.outline]
      show min place.scope 1 = 0 ↔ place.scope = 0
      omega
    simp [outline, own, same]
  | _ => rfl

/-- The names a task binds are told by its outline. -/
theorem binds_outline (task : Task Place) : task.outline.binds = task.binds := by
  -- The same of all that the task leaves gives the same of the task.
  induction task using Task.induction with
  | step task ih =>
    rw [binds_eq, binds_eq task, own_outline, expand_outline (j := rooted) (by decide),
      List.flatMap_map]
    exact congrArg _ (List.flatMap_congr fun rest left => ih rooted rest left)

/-- Which names the rest of a task binds does not depend on the record it is added to. -/
theorem binds_rest (inner : j.next ≠ 0) (task : Task Place) :
    (expand j task).2.flatMap binds = (expand rooted task).2.flatMap binds := by
  -- In outline the rest is the same for any record with a scope in it.
  have same (j : Journal) (inner : j.next ≠ 0) :
      (expand j task).2.flatMap binds = (expand rooted task.outline).2.flatMap binds := by
    rw [expand_outline inner, List.flatMap_map]
    exact List.flatMap_congr fun rest _ => (binds_outline rest).symm
  rw [same j inner, same rooted (by decide)]

end Outline

/-- Two trees with the same skeleton bind the same names. -/
theorem binds_visit_congr {t u : Tree} (same : t.skeleton = u.skeleton) (place : Place) :
    (visit place t).binds = (visit place u).binds := by
  rw [← binds_outline, outline, same, ← outline, binds_outline]

section Rules

variable {place : Place} {t : Tree}

/-- A name is bound in the scope of the task. -/
@[simp] theorem binds_name (kind : BindingKind) (place : Place) (t : Tree) :
    (name kind place t).binds = if t.isIdentifier then [(place.scope == 0, t.name)] else [] := by
  -- Such a task leaves no others.
  rw [binds_eq]
  simp [own, expand]

/-- A list binds what its elements bind. -/
@[simp] theorem binds_list (place : Place) (items : List Tree) :
    (visit place (.list items)).binds = items.flatMap fun t => (visit place t).binds := by
  -- A list binds nothing itself and leaves a task for each element.
  rw [binds_eq]
  simp [own, expand, List.flatMap_map]

/-- A value that is neither a node nor a list binds nothing. -/
theorem binds_value (value : t.isNode = false) (single : t.items = []) :
    (visit place t).binds = [] := by
  -- There is nothing to walk.
  rw [binds_eq]
  cases t with
  | node => cases value
  | list items =>
    cases single
    rfl
  | _ => rfl

/-- A node binds what its rule leaves to bind. -/
theorem binds_node (isNode : t.isNode) :
    (visit place t).binds = (ofNode rooted place t).2.flatMap binds := by
  -- A node binds nothing itself.
  rw [binds_eq]
  cases t with
  | node kind mark fields => rfl
  | _ => cases isNode

/-- A pattern binds what its rule leaves to bind. -/
theorem binds_pattern (kind : BindingKind) (isNode : t.isNode) :
    (pattern kind place t).binds = (ofPattern kind place t).flatMap binds := by
  -- A pattern that is a node binds nothing itself.
  rw [binds_eq]
  cases t with
  | node name mark fields => rfl
  | _ => cases isNode

/-- The kinds of nodes with a rule of their own. -/
def ruled : List String :=
  ["Program", "BlockStatement", "VariableDeclaration", "ImportDeclaration", "FunctionDeclaration",
    "FunctionExpression", "ArrowFunctionExpression", "function", "ClassDeclaration",
    "ClassExpression", "class", "CallExpression", "TryStatement", "CatchClause"]

/-- A node without a rule of its own binds what its fields bind, notes apart. -/
theorem binds_unruled (isNode : t.isNode) (unruled : ∀ kind ∈ ruled, t.kind? ≠ some kind) :
    (visit place t).binds =
      (t.fields.filter fun field => !isNote field.1).flatMap fun field =>
        (visit place field.2).binds := by
  -- Every branch of the rules but the last is for a kind with a rule.
  rw [binds_node isNode]
  have other : (ofNode rooted place t).2 =
      (t.fields.filter fun field => !isNote field.1).map fun field => visit place field.2 := by
    unfold ofNode
    split
    any_goals exact absurd ‹_› (unruled _ (by simp [ruled]))
    rfl
  rw [other, List.flatMap_map]

/-- What the analysis takes for a note, the walk over references does as well. -/
theorem isNote_of_isNoteKey {key : String} (walked : Tree.isNoteKey key = false) :
    isNote key = false := by
  -- The first list of keys is part of the second.
  simp only [Tree.isNoteKey, isNote] at walked ⊢
  simp_all

/-- What is of some kind is a node. -/
theorem isNode_of_isA {kind : String} (isA : t.isA kind) : t.isNode := by
  -- Only nodes have a kind.
  cases t with
  | node => rfl
  | _ => cases isA

/-- A node of a kind without a rule is of no kind with one. -/
theorem kind_ne_of_unruled {kind : String} (isA : t.isA kind) (unruled : kind ∉ ruled) :
    ∀ other ∈ ruled, t.kind? ≠ some other := by
  -- The kind is none of those listed.
  rw [beq_iff_eq.mp isA]
  rintro other rule ⟨⟩
  exact unruled rule

/-- A program binds what its body binds. -/
theorem binds_program (isProgram : t.isA "Program") :
    (visit place t).binds = (visit place (t.get "body")).binds := by
  -- The rule for programs.
  rw [binds_node (isNode_of_isA isProgram), ofNode, beq_iff_eq.mp isProgram]
  simp

/-- A call binds what is bound in what is called and in what that is given. -/
theorem binds_call (isCall : t.isA "CallExpression") :
    (visit place t).binds =
      (visit place (t.get "callee")).binds ++ (visit place (t.get "arguments")).binds := by
  -- The rule for calls; that a call of `eval` is noted binds no name.
  rw [binds_node (isNode_of_isA isCall), ofNode, beq_iff_eq.mp isCall]
  simp

/-- An import binds its local names. -/
theorem binds_import (isImport : t.isA "ImportDeclaration") :
    (visit place t).binds = (t.get "specifiers").items.flatMap fun specifier =>
      (name .imported place (specifier.get "local")).binds := by
  -- The rule for imports.
  rw [binds_node (isNode_of_isA isImport), ofNode, beq_iff_eq.mp isImport]
  exact List.flatMap_map ..

/-- A declaration binds the names of its patterns and what its initializers bind. -/
theorem binds_declaration (isDeclaration : t.isA "VariableDeclaration") :
    (visit place t).binds = (ofDeclaration rooted place t).flatMap binds := by
  -- The rule for declarations.
  rw [binds_node (isNode_of_isA isDeclaration), ofNode, beq_iff_eq.mp isDeclaration]
  rfl

/-- A block binds what its body binds in a scope of its own. -/
theorem binds_block (isBlock : t.isA "BlockStatement") :
    (visit place t).binds = (visit { place with scope := 1 } (t.get "body")).binds := by
  -- The rule for blocks.
  rw [binds_node (isNode_of_isA isBlock), ofNode, beq_iff_eq.mp isBlock]
  exact List.flatMap_singleton ..

/-- A catch clause binds its parameter and what its block binds in a scope of its own. -/
theorem binds_clause (isClause : t.isA "CatchClause") :
    (visit place t).binds =
      (pattern .catchParameter { place with scope := 1 } (t.get "param")).binds ++
        (visit { place with scope := 1 } (t.get "body")).binds := by
  -- The rule for clauses, whose scope is the second of the smallest record.
  rw [binds_node (isNode_of_isA isClause), ofNode, beq_iff_eq.mp isClause]
  simp [ofHandler, rooted, Journal.next, Place.inside]

/-- A handler binds what it binds as a clause. -/
theorem binds_handler (isClause : t.isA "CatchClause") :
    (handler place t).binds = (visit place t).binds := by
  -- Both tasks go by the rule for clauses.
  rw [binds_node (isNode_of_isA isClause), ofNode, beq_iff_eq.mp isClause, binds_eq]
  cases t with
  | node kind mark fields => rfl
  | _ => cases isClause

/-- An attempt binds what its three parts bind. -/
theorem binds_try (isTry : t.isA "TryStatement") :
    (visit place t).binds = (visit place (t.get "block")).binds ++
      (if (t.get "handler").isNode then (handler place (t.get "handler")).binds else []) ++
      (visit place (t.get "finalizer")).binds := by
  -- The rule for attempts, with or without a handler.
  rw [binds_node (isNode_of_isA isTry), ofNode, beq_iff_eq.mp isTry]
  cases caught : (t.get "handler").isNode <;> simp [caught]

/-- A declared function binds its name outside, and the rest inside. -/
theorem binds_functionDeclaration (isFunction : t.isA "FunctionDeclaration") :
    (visit place t).binds = (name .function place.hoisted (t.get "id")).binds ++
      (ofFunction rooted place t false).2.flatMap binds := by
  -- The rule for declared functions.
  rw [binds_node (isNode_of_isA isFunction), ofNode, beq_iff_eq.mp isFunction]
  exact List.flatMap_cons ..

/-- The body of a class binds in a scope of its own, and there the name of a class expression. -/
theorem binds_classBody (ownName : Bool) (isNode : t.isNode) :
    (classBody place ownName t).binds = (visit { place with scope := 1 } (t.get "body")).binds ++
      if ownName then (name .className { place with scope := 1 } (t.get "id")).binds else [] := by
  -- The step opens one scope and leaves one or two tasks in it.
  rw [binds_eq]
  cases t with
  | node kind mark fields =>
    cases ownName <;> simp [own, expand, rooted, Journal.next, Place.inside]
  | _ => cases isNode

/-- A declared class binds its name outside, and what it extends and its body bind. -/
theorem binds_classDeclaration (isClass : t.isA "ClassDeclaration") :
    (visit place t).binds = (name .className place (t.get "id")).binds ++
      (visit place (t.get "superClass")).binds ++ (classBody place false t).binds := by
  -- The rule for declared classes.
  rw [binds_node (isNode_of_isA isClass), ofNode, beq_iff_eq.mp isClass]
  simp

/-- Any other class binds what it extends and its body bind. -/
theorem binds_classExpression (isClass : t.isA "ClassExpression" ∨ t.isA "class") :
    (visit place t).binds = (visit place (t.get "superClass")).binds ++
      (classBody place (t.isA "ClassExpression") t).binds := by
  -- The rules for the two kinds of other classes differ in the name only.
  rcases isClass with isClass | isClass
  all_goals
    rw [binds_node (isNode_of_isA isClass), ofNode, Tree.isA, beq_iff_eq.mp isClass]
    simp

/-- A name as a pattern is bound. -/
theorem binds_pattern_name (kind : BindingKind) (isName : t.isIdentifier) :
    (pattern kind place t).binds = [(place.scope == 0, t.name)] := by
  -- The rule for names as patterns.
  rw [binds_pattern kind (isNode_of_isA isName), ofPattern, beq_iff_eq.mp isName]
  simp [isName]

end Rules

section Run

variable {j : Journal}

/-- What a step makes of a record: its own names are added, and no scope is taken back. -/
structure Extends (j : Journal) (own : List (Bool × Text)) (j' : Journal) : Prop where
  entries : j'.entries = j.entries ++ own
  next : j.next ≤ j'.next

/-- A step may add nothing. -/
theorem Extends.refl (j : Journal) : Extends j [] j := ⟨by simp, Nat.le_refl _⟩

/-- One step after the other. -/
theorem Extends.trans {j j' j'' : Journal} {own more : List (Bool × Text)}
    (here : Extends j own j') (later : Extends j' more j'') : Extends j (own ++ more) j'' :=
  ⟨by rw [later.entries, here.entries, List.append_assoc], Nat.le_trans here.next later.next⟩

/-- Opening a scope binds no name. -/
theorem Extends.open_ (j : Journal) (scope : ScopeEntry) : Extends j [] (j.open_ scope) :=
  ⟨by simp, by simp [Journal.next, Journal.open_]⟩

/-- What walking a node does to the record itself. -/
theorem extends_ofNode (j : Journal) (place : Place) (t : Tree) :
    Extends j [] (ofNode j place t).1 := by
  unfold ofNode
  split
  any_goals exact .refl j
  any_goals exact .open_ j _
  -- A call of `eval` is noted, which opens no scope and binds nothing.
  dsimp only
  split
  · exact ⟨by simp, Nat.le_refl _⟩
  · exact .refl j

/-- A pattern leaves a name to be bound, patterns deeper in it, and expressions that stand in it. -/
theorem eq_of_mem_ofPattern {kind : BindingKind} {place : Place} {t : Tree} {rest : Task Place}
    (left : rest ∈ ofPattern kind place t) :
    rest = .name kind place t ∨ (∃ deeper, rest = .pattern kind place deeper) ∨
      ∃ expression, rest = .visit place expression := by
  -- One case for each kind of pattern, as in the rule for patterns.
  unfold ofPattern at left
  split at left
  · exact .inl (List.mem_singleton.mp left)
  · obtain ⟨property, _, part⟩ := List.mem_flatMap.mp left
    split at part
    · rcases List.mem_append.mp part with key | value
      · split at key
        · exact .inr (.inr ⟨_, List.mem_singleton.mp key⟩)
        · cases key
      · exact .inr (.inl ⟨_, List.mem_singleton.mp value⟩)
    · exact .inr (.inl ⟨_, List.mem_singleton.mp part⟩)
  · obtain ⟨deeper, _, rfl⟩ := List.mem_map.mp left
    exact .inr (.inl ⟨deeper, rfl⟩)
  · exact .inr (.inl ⟨_, List.mem_singleton.mp left⟩)
  · simp only [List.mem_cons, List.not_mem_nil, or_false] at left
    rcases left with rfl | rfl
    · exact .inr (.inl ⟨_, rfl⟩)
    · exact .inr (.inr ⟨_, rfl⟩)
  · cases left

/-- A task adds its own name to the record before the rest is done. -/
theorem extends_expand (j : Journal) (task : Task Place) :
    Extends j task.own (expand j task).1 := by
  -- Only names add to what is bound; the other steps open a scope at most.
  unfold expand
  split
  any_goals exact .refl j
  any_goals exact .open_ j _
  · exact extends_ofNode ..
  · rw [own]
    split
    · exact ⟨by simp, Nat.le_refl _⟩
    · exact .refl j

/-- Carrying out a task adds the names it binds to the record. -/
theorem extends_run (task : Task Place) (inner : j.next ≠ 0) :
    Extends j task.binds (task.run j) := by
  induction task using Task.induction generalizing j with
  | step task ih =>
    -- The tasks left are carried out in order, each on what the one before it made.
    have rest (tasks : List (Task Place)) (known : ∀ rest ∈ tasks, rest ∈ (expand j task).2)
        {j' : Journal} (inner' : j'.next ≠ 0) :
        Extends j' (tasks.flatMap binds) (tasks.foldl (fun j rest => rest.run j) j') := by
      induction tasks generalizing j' with
      | nil => exact .refl j'
      | cons first tasks later =>
        have here := ih j first (known first List.mem_cons_self) inner'
        have opened : (first.run j').next ≠ 0 := by
          have := here.next
          omega
        have more := later (fun rest left => known rest (List.mem_cons_of_mem _ left)) opened
        rw [List.flatMap_cons, List.foldl_cons]
        exact here.trans more
    have first := extends_expand j task
    have opened : (expand j task).1.next ≠ 0 := by
      have := first.next
      omega
    have whole := first.trans (rest _ (fun _ left => left) opened)
    rw [run_eq, binds_eq, ← binds_rest inner]
    exact whole

end Run

end Task

/-- An analysis binds the names that the walk over the program binds. -/
theorem entries_journal (program : Tree) :
    (journal program).entries = (Task.visit ⟨0, 0⟩ program).binds := by
  exact (Task.extends_run _ (by simp [Journal.next])).entries

end Scope

end ModuleLift
