import ModuleLift.Scope.Basic
import ModuleLift.Tree.Size

/-! Which names a program binds, and in which scope.

The walk is a run of tasks. `Task.expand` says what one task adds to the record and which smaller
tasks it leaves; `Task.run` carries them out in order. How the record is kept is left open: see
`Keeper`. -/

namespace ModuleLift.Scope

/-- A way to keep the record of an analysis. Places say where in the record a part of the program
stands. -/
class Keeper (ρ : Type) (σ : outParam Type) where
  /-- Opens a scope for a node inside the scope of a place, and gives the place inside it. -/
  enter : ρ → ScopeKind → Tree → σ → ρ × σ
  /-- Where a `var` belongs that stands at a place. -/
  hoist : ρ → σ → σ
  /-- Binds a name in the scope of a place. -/
  bind : ρ → σ → Binding → ρ
  /-- Takes note of a call of `eval`. -/
  noteEval : ρ → EvalCall → ρ

/-- In a ledger, a place is the number of a scope. -/
instance : Keeper Ledger Nat where
  enter l kind node scope := l.newScope kind node (some scope)
  hoist := Ledger.hoistTarget
  bind := Ledger.bind
  noteEval := Ledger.noteEval

/-- A part of the walk that is still to be done. -/
inductive Task (σ : Type) where
  /-- Walks a part of the program. -/
  | visit (place : σ) (tree : Tree)
  /-- Binds the names of a pattern. -/
  | pattern (kind : BindingKind) (place : σ) (tree : Tree)
  /-- Binds a name, if the tree is one. -/
  | name (kind : BindingKind) (place : σ) (tree : Tree)
  /-- Opens the scope of a catch clause and walks it. -/
  | handler (place : σ) (tree : Tree)
  /-- Opens the scope of a class and walks its body; a class expression binds its own name there. -/
  | classBody (place : σ) (ownName : Bool) (tree : Tree)

namespace Task

variable {ρ σ : Type}

/-- A bound for the work a task leaves. -/
noncomputable def rank : Task σ → Nat
  | .visit _ tree => 2 * sizeOf tree + 1
  | .pattern _ _ tree => 2 * sizeOf tree + 1
  | .name _ _ _ => 0
  | .handler _ tree => 2 * sizeOf tree + 1
  | .classBody _ _ tree => 2 * sizeOf tree

/-- Fields that carry notes on the text and no part of the program. -/
def isNote (key : String) : Bool := ["loc", "range", "comments", "errors"].contains key

/-- The kind of binding a declaration word stands for. -/
def bindingKind (word : Tree) : BindingKind :=
  if word.isText "let" then .let else if word.isText "const" then .const else .var

section Steps

variable [Keeper ρ σ]

/-- Opens a function's scope: its parameters, its body without a scope of its own, and then the name
a function expression gives itself. -/
def ofFunction (l : ρ) (place : σ) (t : Tree) (ownName : Bool) : ρ × List (Task σ) :=
  let entered := Keeper.enter l .function t place
  let inner := entered.2
  let body := t.get "body"
  -- The body of a function shares the scope of its parameters.
  let walked := if body.isA "BlockStatement" then body.get "body" else body
  -- The name comes last, so a parameter of that name is met before it.
  let own := if ownName then [.name .function inner (t.get "id")] else []
  (entered.1,
    (t.get "params").items.map (.pattern .parameter inner) ++ [.visit inner walked] ++ own)

/-- Opens a catch clause's scope: its parameter and its block. -/
def ofHandler (l : ρ) (place : σ) (t : Tree) : ρ × List (Task σ) :=
  let entered := Keeper.enter l .catch t place
  (entered.1,
    [.pattern .catchParameter entered.2 (t.get "param"), .visit entered.2 (t.get "body")])

/-- Binds the names of a declaration's patterns and walks its initializers. -/
def ofDeclaration (l : ρ) (place : σ) (t : Tree) : List (Task σ) :=
  let kind := bindingKind (t.get "kind")
  -- Patterns of `var` bind outside the blocks around them, initializers stay inside.
  let target := if kind = .var then Keeper.hoist l place else place
  (t.get "declarations").items.flatMap fun declarator =>
    [.pattern kind target (declarator.get "id"), .visit place (declarator.get "init")]

/-- What walking a node adds to the record, and what is left to do. -/
def ofNode (l : ρ) (place : σ) (t : Tree) : ρ × List (Task σ) :=
  match t.kind? with
  | some "Program" => (l, [.visit place (t.get "body")])
  | some "BlockStatement" =>
    let entered := Keeper.enter l .block t place
    (entered.1, [.visit entered.2 (t.get "body")])
  | some "VariableDeclaration" => (l, ofDeclaration l place t)
  | some "ImportDeclaration" =>
    (l, (t.get "specifiers").items.map fun s => .name .imported place (s.get "local"))
  | some "FunctionDeclaration" =>
    let step := ofFunction l place t false
    -- A declared function is known in the whole function around it.
    (step.1, .name .function (Keeper.hoist l place) (t.get "id") :: step.2)
  | some "FunctionExpression" => ofFunction l place t true
  | some "ArrowFunctionExpression" | some "function" => ofFunction l place t false
  | some "ClassDeclaration" =>
    (l, [.name .className place (t.get "id"), .visit place (t.get "superClass"),
      .classBody place false t])
  | some "ClassExpression" =>
    (l, [.visit place (t.get "superClass"), .classBody place true t])
  | some "class" => (l, [.visit place (t.get "superClass"), .classBody place false t])
  | some "CallExpression" =>
    let callee := t.get "callee"
    -- Only a call by that very name sees the scope it stands in.
    (if callee.isNamed "eval" then Keeper.noteEval l { spot := callee.mark.spot } else l,
      [.visit place callee, .visit place (t.get "arguments")])
  | some "TryStatement" =>
    let handler := t.get "handler"
    (l, [.visit place (t.get "block")] ++
      (if handler.isNode then [.handler place handler] else []) ++
      [.visit place (t.get "finalizer")])
  | some "CatchClause" => ofHandler l place t
  | _ =>
    -- Nodes without a rule of their own bind nothing and open no scope.
    (l, (t.fields.filter fun field => !isNote field.1).map fun field => .visit place field.2)

end Steps

/-- What is left to do to bind a pattern's names. -/
def ofPattern (kind : BindingKind) (place : σ) (t : Tree) : List (Task σ) :=
  match t.kind? with
  | some "Identifier" => [.name kind place t]
  | some "ObjectPattern" =>
    (t.get "properties").items.flatMap fun property =>
      if property.isA "Property" then
        -- A computed key is an expression, any other key is no reference.
        (if (property.get "computed").isSet then [.visit place (property.get "key")] else []) ++
          [.pattern kind place (property.get "value")]
      else [.pattern kind place property]
  | some "ArrayPattern" => (t.get "elements").items.map (.pattern kind place)
  | some "RestElement" => [.pattern kind place (t.get "argument")]
  | some "AssignmentPattern" =>
    [.pattern kind place (t.get "left"), .visit place (t.get "right")]
  | _ => []

variable [Keeper ρ σ]

/-- What a task adds to the record, and the smaller tasks it leaves. -/
def expand (l : ρ) : Task σ → ρ × List (Task σ)
  | .visit place (.list items) => (l, items.map (.visit place))
  | .visit place (.node kind mark fields) => ofNode l place (.node kind mark fields)
  | .visit _ _ => (l, [])
  | .pattern kind place (.node node mark fields) =>
    (l, ofPattern kind place (.node node mark fields))
  | .pattern _ _ _ => (l, [])
  | .name kind place t =>
    (if t.isIdentifier then
      Keeper.bind l place { name := t.name, kind, spot := t.mark.spot, node := t } else l, [])
  | .handler place (.node kind mark fields) => ofHandler l place (.node kind mark fields)
  | .handler _ _ => (l, [])
  | .classBody place ownName (.node kind mark fields) =>
    let t : Tree := .node kind mark fields
    let entered := Keeper.enter l .classBody t place
    (entered.1, [.visit entered.2 (t.get "body")] ++
      (if ownName then [.name .className entered.2 (t.get "id")] else []))
  | .classBody _ _ _ => (l, [])

/-- What a function leaves to do is smaller than the function. -/
theorem rank_lt_of_mem_ofFunction {l : ρ} {place : σ} {kind : Option String}
    {mark : Mark} {fields : List (String × Tree)} {ownName : Bool} {task : Task σ}
    (left : task ∈ (ofFunction l place (.node kind mark fields) ownName).2) :
    task.rank < 2 * sizeOf (Tree.node kind mark fields) + 1 := by
  have body := Tree.sizeOf_get_lt kind mark fields "body"
  simp only [ofFunction, List.mem_append, List.mem_map, List.mem_singleton] at left
  -- Parameters, body and own name are the three parts.
  rcases left with (⟨param, member, rfl⟩ | rfl) | own
  · have smaller := Tree.sizeOf_lt_of_mem_get_items member
    simp only [rank]
    omega
  · have block := Tree.sizeOf_get_le ((Tree.node kind mark fields).get "body") "body"
    simp only [rank]
    split <;> omega
  · -- The function's own name leaves nothing more to do.
    split at own <;> simp_all [rank]

/-- What a catch clause leaves to do is smaller than the clause. -/
theorem rank_lt_of_mem_ofHandler {l : ρ} {place : σ} {kind : Option String}
    {mark : Mark} {fields : List (String × Tree)} {task : Task σ}
    (left : task ∈ (ofHandler l place (.node kind mark fields)).2) :
    task.rank < 2 * sizeOf (Tree.node kind mark fields) + 1 := by
  -- Each of the two tasks is about a field.
  have field := Tree.sizeOf_get_lt kind mark fields
  simp only [ofHandler, List.mem_cons, List.not_mem_nil, or_false] at left
  rcases left with rfl | rfl
  · have := field "param"
    simp only [rank]
    omega
  · have := field "body"
    simp only [rank]
    omega

/-- What a declaration leaves to do is smaller than the declaration. -/
theorem rank_lt_of_mem_ofDeclaration {l : ρ} {place : σ} {kind : Option String} {mark : Mark}
    {fields : List (String × Tree)} {task : Task σ}
    (left : task ∈ ofDeclaration l place (.node kind mark fields)) :
    task.rank < 2 * sizeOf (Tree.node kind mark fields) + 1 := by
  simp only [ofDeclaration, List.mem_flatMap, List.mem_cons, List.not_mem_nil, or_false] at left
  -- Each part lies in a declarator, and each declarator in the declaration.
  obtain ⟨declarator, member, part⟩ := left
  have smaller := Tree.sizeOf_lt_of_mem_get_items member
  have field := Tree.sizeOf_get_le declarator
  rcases part with rfl | rfl
  · have := field "id"
    simp only [rank]
    omega
  · have := field "init"
    simp only [rank]
    omega

/-- What walking a node leaves to do is smaller than the node. -/
theorem rank_lt_of_mem_ofNode {l : ρ} {place : σ} {kind : Option String} {mark : Mark}
    {fields : List (String × Tree)} {task : Task σ}
    (left : task ∈ (ofNode l place (.node kind mark fields)).2) :
    task.rank < 2 * sizeOf (Tree.node kind mark fields) + 1 := by
  -- All that is left to do is reached through a field.
  have field := Tree.sizeOf_get_lt kind mark fields
  have body := field "body"
  have superClass := field "superClass"
  have callee := field "callee"
  have arguments := field "arguments"
  have tried := field "block"
  have handler := field "handler"
  have finalizer := field "finalizer"
  unfold ofNode at left
  split at left
  · simp_all [rank]
  · simp_all [rank]
  · exact rank_lt_of_mem_ofDeclaration left
  · simp only [List.mem_map] at left
    obtain ⟨_, _, rfl⟩ := left
    simp [rank]
  · simp only [List.mem_cons] at left
    rcases left with rfl | left
    · simp [rank]
    · exact rank_lt_of_mem_ofFunction left
  · exact rank_lt_of_mem_ofFunction left
  · exact rank_lt_of_mem_ofFunction left
  · exact rank_lt_of_mem_ofFunction left
  · simp only [List.mem_cons, List.not_mem_nil, or_false] at left
    rcases left with rfl | rfl | rfl <;> simp only [rank] <;> omega
  · simp only [List.mem_cons, List.not_mem_nil, or_false] at left
    rcases left with rfl | rfl <;> simp only [rank] <;> omega
  · simp only [List.mem_cons, List.not_mem_nil, or_false] at left
    rcases left with rfl | rfl <;> simp only [rank] <;> omega
  · simp only [List.mem_cons, List.not_mem_nil, or_false] at left
    rcases left with rfl | rfl <;> simp only [rank] <;> omega
  · simp only [List.mem_append, List.mem_singleton] at left
    rcases left with (rfl | caught) | rfl
    · simp only [rank]
      omega
    · split at caught
      · simp only [List.mem_singleton] at caught
        subst caught
        simp only [rank]
        omega
      · simp at caught
    · simp only [rank]
      omega
  · exact rank_lt_of_mem_ofHandler left
  · -- Any other node is walked field by field.
    simp only [List.mem_map, List.mem_filter, Tree.fields] at left
    obtain ⟨⟨key, value⟩, ⟨member, _⟩, rfl⟩ := left
    have smaller := List.sizeOf_lt_of_mem member
    simp only [rank, Tree.node.sizeOf_spec, Prod.mk.sizeOf_spec] at smaller ⊢
    omega

/-- What binding a pattern leaves to do is smaller than the pattern. -/
theorem rank_lt_of_mem_ofPattern {kind : BindingKind} {place : σ}
    {node : Option String} {mark : Mark} {fields : List (String × Tree)} {task : Task σ}
    (left : task ∈ ofPattern kind place (.node node mark fields)) :
    task.rank < 2 * sizeOf (Tree.node node mark fields) + 1 := by
  have field := Tree.sizeOf_get_lt node mark fields
  have argument := field "argument"
  have target := field "left"
  have initial := field "right"
  unfold ofPattern at left
  split at left
  · simp_all [rank]
  · simp only [List.mem_flatMap] at left
    -- Keys and values lie in a property, and properties in the pattern.
    obtain ⟨property, member, part⟩ := left
    have smaller := Tree.sizeOf_lt_of_mem_get_items member
    have key := Tree.sizeOf_get_le property "key"
    have value := Tree.sizeOf_get_le property "value"
    split at part
    · simp only [List.mem_append, List.mem_singleton] at part
      rcases part with part | rfl
      · split at part
        · simp only [List.mem_singleton] at part
          subst part
          simp only [rank]
          omega
        · simp at part
      · simp only [rank]
        omega
    · simp only [List.mem_singleton] at part
      subst part
      simp only [rank]
      omega
  · simp only [List.mem_map] at left
    obtain ⟨element, member, rfl⟩ := left
    have smaller := Tree.sizeOf_lt_of_mem_get_items member
    simp only [rank]
    omega
  · simp_all [rank]
  · simp only [List.mem_cons, List.not_mem_nil, or_false] at left
    rcases left with rfl | rfl <;> simp only [rank] <;> omega
  · simp at left

/-- Every task leaves only smaller ones. -/
theorem rank_lt_of_mem_expand {l : ρ} {task rest : Task σ} (left : rest ∈ (expand l task).2) :
    rest.rank < task.rank := by
  unfold expand at left
  split at left
  · simp only [List.mem_map] at left
    obtain ⟨item, member, rfl⟩ := left
    have smaller := List.sizeOf_lt_of_mem member
    simp only [rank, Tree.list.sizeOf_spec]
    omega
  · exact rank_lt_of_mem_ofNode left
  · simp at left
  · exact rank_lt_of_mem_ofPattern left
  · simp at left
  · simp at left
  · exact rank_lt_of_mem_ofHandler left
  · simp at left
  -- A class body is ranked just below the walk that leaves it.
  · rename_i place ownName kind mark fields
    have body := Tree.sizeOf_get_lt kind mark fields "body"
    simp only [List.mem_append, List.mem_singleton] at left
    rcases left with rfl | own
    · simp only [rank]
      omega
    · have positive := Tree.sizeOf_pos (.node kind mark fields)
      split at own
      · simp only [List.mem_singleton] at own
        subst own
        simp only [rank]
        omega
      · simp at own
  · simp at left

/-- Carries out a task and all that it leaves, in order. -/
def run (task : Task σ) (l : ρ) : ρ :=
  -- Tasks are done in order, each on the record that the one before it left.
  let step := expand l task
  step.2.attach.foldl (fun l ⟨rest, _⟩ => rest.run l) step.1
termination_by task.rank
decreasing_by
  rename_i left
  exact rank_lt_of_mem_expand left

end Task

/-- The record of a program: its own scope is the first. -/
def analyze (program : Tree) : Ledger :=
  let start := Ledger.newScope {} .global program none
  (Task.visit start.2 program).run start.1

end ModuleLift.Scope
