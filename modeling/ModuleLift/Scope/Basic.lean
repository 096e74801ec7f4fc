import ModuleLift.Dictionary
import ModuleLift.Tree.Basic

/-! Scopes, the names bound in them, and the record an analysis keeps of both. -/

namespace ModuleLift

/-- What opens a scope. -/
inductive ScopeKind where
  | global
  | function
  | block
  | catch
  | classBody
deriving DecidableEq, Repr, Inhabited

/-- What binds a name. -/
inductive BindingKind where
  | var
  | let
  | const
  | function
  | className
  | imported
  | parameter
  | catchParameter
deriving DecidableEq, Repr, Inhabited

/-- A name bound once, and the identifier that binds it. -/
structure Binding where
  name : Text
  kind : BindingKind
  spot : Spot
  node : Tree
deriving Inhabited

/-- A scope of a record. Other scopes are referred to by their numbers in the record. -/
structure Scope where
  id : String
  kind : ScopeKind
  /-- The node that opened it. -/
  node : Tree
  /-- The scope it lies in. -/
  parent : Option Nat
  /-- The names bound in it, each with its bindings in the order in which they were met. -/
  bindings : Dictionary Text (List Binding) := {}
  /-- The scopes directly inside it, in the order in which they were opened. -/
  children : List Nat := []
deriving Inhabited

namespace Scope

/-- Puts a binding on record, after those of the same name. -/
def addBinding (s : Scope) (binding : Binding) : Scope :=
  { s with bindings := s.bindings.alter binding.name fun held => held.getD [] ++ [binding] }

/-- Puts a scope inside. -/
def addChild (s : Scope) (child : Nat) : Scope := { s with children := s.children ++ [child] }

end Scope

/-- A direct call of `eval`, which can reach names without naming them. -/
structure EvalCall where
  spot : Spot
deriving DecidableEq, Repr, Inhabited

/-- What is said about a call of `eval`. -/
def EvalCall.message : String :=
  "eval may load modules or read __dirname/__filename invisibly."

/-- The record of an analysis. -/
structure Ledger where
  scopes : List Scope := []
  /-- Counts the scopes opened so far. -/
  counter : Nat := 0
  evalCalls : List EvalCall := []
deriving Inhabited

namespace Ledger

/-- Opens a scope, which is put inside the one around it, and gives its number. -/
def newScope (l : Ledger) (kind : ScopeKind) (node : Tree) (parent : Option Nat) :
    Ledger × Nat :=
  let number := l.scopes.length
  let scope : Scope := { id := "S" ++ toString l.counter, kind, node, parent }
  let around :=
    match parent with
    | some outer => l.scopes.modify outer (·.addChild number)
    | none => l.scopes
  ({ l with scopes := around ++ [scope], counter := l.counter + 1 }, number)

/-- Binds a name in a scope. -/
def bind (l : Ledger) (scope : Nat) (binding : Binding) : Ledger :=
  { l with scopes := l.scopes.modify scope (·.addBinding binding) }

/-- Takes note of a call of `eval`. -/
def noteEval (l : Ledger) (call : EvalCall) : Ledger :=
  { l with evalCalls := l.evalCalls ++ [call] }

/-- Climbs from a scope to the nearest function or to the program, in at most some steps. -/
def climb (l : Ledger) : Nat → Nat → Nat
  | 0, scope => scope
  | steps + 1, scope =>
    match l.scopes[scope]? with
    | some { kind := .function, .. } => scope
    | some { kind := .global, .. } => scope
    | some { parent := some outer, .. } => l.climb steps outer
    | _ => scope

/-- The scope a `var` belongs to, from where it stands. -/
def hoistTarget (l : Ledger) (scope : Nat) : Nat :=
  -- A climb passes each scope at most once.
  l.climb l.scopes.length scope

/-- The scopes directly inside a scope. -/
def childrenOf (l : Ledger) (scope : Nat) : List Nat := l.scopes[scope]?.elim [] Scope.children

/-- The names bound in a scope, in the order of their first binding. -/
def namesOf (l : Ledger) (scope : Nat) : List Text :=
  l.scopes[scope]?.elim [] fun held => held.bindings.keys

/-- Takes scopes from a stack, in at most some rounds. Each is listed, and those inside it are put
on the stack, the first of them on top. -/
def unstack (l : Ledger) : Nat → List Nat → List Nat
  | 0, _ => []
  | _ + 1, [] => []
  | rounds + 1, scope :: stack => scope :: l.unstack rounds (l.childrenOf scope ++ stack)

/-- All scopes, outer ones first. -/
def flatten (l : Ledger) : List Nat :=
  -- Every round lists one more scope.
  l.unstack l.scopes.length [0]

/-- The names bound at the top level. -/
def topLevelNames (l : Ledger) : List Text := l.namesOf 0

/-- The names bound anywhere. -/
def boundNames (l : Ledger) : List Text := (l.flatten.flatMap l.namesOf).eraseDups

/-- The names bound anywhere, sorted by their code points. -/
def sortedNames (l : Ledger) : List Text :=
  -- A name comes before another unless it is the larger one.
  l.boundNames.mergeSort fun a b =>
    !(b.map Letter.code).lex (a.map Letter.code) fun first second => first < second

end Ledger

end ModuleLift
