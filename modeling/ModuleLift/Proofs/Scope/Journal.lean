import ModuleLift.Scope.Analysis

/-! The record of an analysis as a journal: what was met, in the order in which it was met. The same
walk can keep a journal in place of a ledger, and its places then say of themselves where a `var`
belongs, so nothing has to be looked up. -/

namespace ModuleLift

/-- A scope in a journal: what opened it, and the scope it lies in. -/
structure ScopeEntry where
  kind : ScopeKind
  node : Tree
  parent : Option Nat

/-- What an analysis has met. Scopes are numbered in the order in which they were opened. -/
structure Journal where
  scopes : List ScopeEntry := []
  /-- The bindings in the order in which they were met, with the number of their scope. -/
  bindings : List (Nat × Binding) := []
  evalCalls : List EvalCall := []

namespace Journal

/-- The number of the next scope to be opened. -/
def next (j : Journal) : Nat := j.scopes.length

/-- Opens a scope; its number is the one that was next. -/
def open_ (j : Journal) (scope : ScopeEntry) : Journal := { j with scopes := j.scopes ++ [scope] }

/-- Binds a name in a scope. -/
def bind (j : Journal) (scope : Nat) (binding : Binding) : Journal :=
  { j with bindings := j.bindings ++ [(scope, binding)] }

/-- Takes note of a call of `eval`. -/
def noteEval (j : Journal) (call : EvalCall) : Journal :=
  { j with evalCalls := j.evalCalls ++ [call] }

/-- The bindings of a scope. -/
def bindingsOf (j : Journal) (scope : Nat) : List Binding :=
  (j.bindings.filter fun entry => entry.1 == scope).map (·.2)

/-- The scope that a scope lies in. -/
def parent? (j : Journal) (number : Nat) : Option Nat := j.scopes[number]?.bind (·.parent)

/-- The scopes that lie directly in a scope, in the order in which they were opened. -/
def children (j : Journal) (scope : Nat) : List Nat :=
  -- A scope is opened before those inside it, so its number is smaller.
  (List.range j.next).filter fun inner => scope < inner && j.parent? inner == some scope

end Journal

namespace Scope

/-- Where a part of a program stands: its scope, and the scope a `var` in it belongs to. -/
structure Place where
  scope : Nat
  hoist : Nat
deriving DecidableEq

namespace Place

/-- The place whose own scope takes up `var`. -/
def hoisted (p : Place) : Place := { scope := p.hoist, hoist := p.hoist }

/-- The place in a scope that is opened here: a function takes up `var` itself. -/
def inside (p : Place) (kind : ScopeKind) (number : Nat) : Place :=
  { scope := number, hoist := if kind = .function then number else p.hoist }

end Place

/-- A journal is kept with places that know where a `var` belongs. -/
instance : Keeper Journal Place where
  enter j kind node place :=
    (j.open_ { kind, node, parent := some place.scope }, place.inside kind j.next)
  hoist _ place := place.hoisted
  bind j place binding := j.bind place.scope binding
  noteEval := Journal.noteEval

section Keeping

variable (j : Journal) (place : Place)

/-- A journal opens a scope under the next number. -/
@[simp] theorem enter_journal (kind : ScopeKind) (node : Tree) : Keeper.enter j kind node place =
    (j.open_ { kind, node, parent := some place.scope }, place.inside kind j.next) := rfl

/-- A journal goes to the scope for `var` by its number. -/
@[simp] theorem hoist_journal : Keeper.hoist j place = place.hoisted := rfl

/-- A journal binds a name under the number of the scope. -/
@[simp] theorem bind_journal (binding : Binding) :
    Keeper.bind j place binding = j.bind place.scope binding := rfl

/-- A journal notes a call of `eval`. -/
@[simp] theorem noteEval_journal (call : EvalCall) : Keeper.noteEval j call = j.noteEval call := rfl

end Keeping

/-- The journal of a program: its own scope is the first. -/
def journal (program : Tree) : Journal :=
  (Task.visit { scope := 0, hoist := 0 : Place } program).run
    { scopes := [{ kind := .global, node := program, parent := none }] }

end Scope

end ModuleLift
