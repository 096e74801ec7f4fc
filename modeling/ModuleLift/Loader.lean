import ModuleLift.Tree.Basic

/-! Calls of `require` in the shapes that an import can take the place of. -/

namespace ModuleLift

/-- A call of `require`, with the argument it is given. -/
inductive Loader where
  /-- `require(target)` -/
  | plain (target : Tree)
  /-- `require(target)(arguments)` -/
  | factory (target : Tree) (arguments : List Tree)
  /-- `require(target).property` -/
  | member (target : Tree) (property : Tree)

namespace Loader

/-- The argument of `require`. -/
def target : Loader → Tree
  | .plain target => target
  | .factory target _ => target
  | .member target _ => target

/-- The module named, if the argument is a string literal. -/
def module? (l : Loader) : Option Text := l.target.stringValue?

/-- The argument of a call of `require` with exactly one argument that is no spread. -/
def requireArgument? (t : Tree) : Option Tree :=
  if t.isA "CallExpression" && (t.get "callee").isNamed "require" then
    match (t.get "arguments").items with
    -- A spread may bring any number of arguments.
    | [argument] => if argument.isA "SpreadElement" then none else some argument
    | _ => none
  else none

/-- The argument of a call of `require` that is a string literal. -/
def staticArgument? (t : Tree) : Option Tree :=
  (requireArgument? t).filter fun argument => argument.stringValue?.isSome

/-- The call of `require` an expression is, if it is one of the three shapes. Around a call whose
argument is no string literal the outer shapes are not recognized. -/
def classify (t : Tree) : Option Loader :=
  if t.isA "CallExpression" then
    match requireArgument? t with
    -- The call itself comes first, so what surrounds it is looked at only if it is none.
    | some argument => some (.plain argument)
    | none =>
      (staticArgument? (t.get "callee")).map fun argument =>
        .factory argument (t.get "arguments").items
  else if t.isA "MemberExpression" && !(t.get "computed").isSet then
    if (t.get "property").isIdentifier then
      (staticArgument? (t.get "object")).map fun argument => .member argument (t.get "property")
    else none
  else none

end Loader

end ModuleLift
