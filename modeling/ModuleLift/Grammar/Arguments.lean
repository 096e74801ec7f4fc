import ModuleLift.Grammar.Pattern

/-! Expressions in a row: comma expressions, spreads and arguments. -/

namespace ModuleLift.Grammar

open Parse

/-- Reads expressions after commas for as long as there are any. -/
def moreExpressions (grammar : Rules) : Parse (List Tree) :=
  loop ([] : List Tree) fun read => do
    if ← sees "," then
      let _ ← nextToken
      return .inl ((← isolated (grammar .assignment)) :: read)
    return .inr read.reverse

/-- Reads an expression, with commas. -/
def expression (grammar : Rules) : Parse Tree := do
  let start ← startHere
  let first ← isolated (grammar .assignment)
  if ← sees "," then
    let more ← moreExpressions grammar
    finish start "SequenceExpression" [("expressions", .list (first :: more))]
  else return first

/-- Reads `...` and the expression after it. -/
def spreadElement (grammar : Rules) : Parse Tree := do
  let start ← startHere
  expect "..."
  let argument ← inherited (grammar .assignment)
  finish start "SpreadElement" [("argument", argument)]

/-- Reads arguments in parentheses. With `parameters` set they may turn out to be the parameters of
an arrow function, so forms that only a pattern may have are let pass. -/
def argumentsOf (grammar : Rules) (parameters : Bool) : Parse (List Tree) := do
  expect "("
  let entry : Parse Tree := do
    if ← sees "..." then spreadElement grammar
    else isolated do
      let argument ← grammar .assignment
      -- Whether a default is in order is for the arrow to decide.
      if parameters then setContext fun c => { c with patternOnly := none }
      return argument
  let arguments ← if ← sees ")" then pure [] else
    loop ([] : List Tree) fun read => do
      let read := (← entry) :: read
      if ← sees ")" then return .inr read.reverse
      -- A comma may stand after the last argument.
      expectComma
      if ← sees ")" then return .inr read.reverse
      return .inl read
  expect ")"
  return arguments

end ModuleLift.Grammar
