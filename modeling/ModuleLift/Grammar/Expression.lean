import ModuleLift.Grammar.Primary

/-! Expressions: members and calls, operators, arrow functions and assignments. -/

namespace ModuleLift.Grammar

open Parse

/-- Reads `new` and what it makes, or `new.target`. -/
def newExpression (grammar : Rules) : Parse Tree := do
  let start ← startHere
  let id ← identifierName
  if ← sees "." then
    let _ ← nextToken
    let token ← ahead
    unless token.isContextual "target" && (← context).inFunctionBody do unexpectedAhead
    let property ← identifierName
    finish start "MetaProperty" [("meta", id), ("property", property)]
  else if ← seesWord "import" then unexpectedAhead
  else
    let callee ← isolated (grammar .callee)
    -- Without parentheses there are no arguments.
    let arguments ← if ← sees "(" then argumentsOf grammar false else pure []
    noTarget
    finish start "NewExpression" [("callee", callee), ("arguments", .list arguments)]

/-- Reads what a chain of members and calls starts with. -/
def chainStart (grammar : Rules) : Parse Tree := do
  if ← seesWord "new" then inherited (newExpression grammar) else inherited (primary grammar)

/-- Reads a `.name` after an expression. -/
def memberName (start : Point) (object : Tree) : Parse Tree := do
  setTargets true false
  expect "."
  let property ← identifierName
  finish start "MemberExpression"
    [("computed", .flag false), ("object", object), ("property", property)]

/-- Reads a member in brackets after an expression. -/
def memberIndex (grammar : Rules) (start : Point) (object : Tree) : Parse Tree := do
  setTargets true false
  expect "["
  let property ← isolated (expression grammar)
  expect "]"
  finish start "MemberExpression"
    [("computed", .flag true), ("object", object), ("property", property)]

/-- Reads a template after the expression that tags it. -/
def taggedTemplate (grammar : Rules) (start : Point) (tag : Tree) : Parse Tree := do
  let quasi ← templateLiteral grammar
  finish start "TaggedTemplateExpression" [("tag", tag), ("quasi", quasi)]

/-- Whether a template starts here. -/
def seesTemplate : Parse Bool := do
  let token ← ahead
  return token.kind == .template && token.head

/-- Reads arguments after an expression. Those of `async` may be the parameters of an arrow. -/
def callRest (grammar : Rules) (startToken : Token) (maybeAsync : Bool) (callee : Tree) :
    Parse Tree := do
  -- Only on one line with it can the arguments belong to `async`.
  let asyncArrow := maybeAsync && startToken.lastLine == (← ahead).lastLine
  noTarget
  let arguments ← argumentsOf grammar asyncArrow
  -- A module is loaded by exactly one specifier.
  if callee.isA "Import" && arguments.length != 1 then complain .misplacedForm
  let call ← finish (startAt startToken) "CallExpression"
    [("callee", callee), ("arguments", .list arguments)]
  if asyncArrow && (← sees "=>") then return arrowHead (allAsPatterns arguments) true
  return call

/-- Reads a chain of members and calls. -/
def callChain (grammar : Rules) : Parse Tree := do
  let startToken ← ahead
  let start := startAt startToken
  let maybeAsync ← seesContextual "async"
  let outer ← context
  -- Inside a chain `in` is an operator even in the head of a loop.
  setContext fun c => { c with allowIn := true }
  let first ← if (← seesWord "super") && outer.inFunctionBody then do
    let _ ← nextToken
    let expr ← finish start "Super" []
    unless ← seesAny ["(", ".", "["] do unexpectedAhead
    pure expr
  else chainStart grammar
  let chain ← loop first fun expr => do
    if ← sees "." then return .inl (← memberName start expr)
    if ← sees "(" then return .inl (← callRest grammar startToken maybeAsync expr)
    if ← sees "[" then return .inl (← memberIndex grammar start expr)
    if ← seesTemplate then return .inl (← taggedTemplate grammar start expr)
    return .inr expr
  setContext fun c => { c with allowIn := outer.allowIn }
  return chain

/-- Reads the callee of `new`: a chain of members without calls. -/
def memberChain (grammar : Rules) : Parse Tree := do
  let start ← startHere
  let first ← if (← seesWord "super") && (← context).inFunctionBody then do
    expectWord "super"
    unless ← seesAny ["[", "."] do unexpectedAhead
    finish start "Super" []
  else chainStart grammar
  loop first fun expr => do
    if ← sees "[" then return .inl (← memberIndex grammar start expr)
    if ← sees "." then return .inl (← memberName start expr)
    if ← seesTemplate then return .inl (← taggedTemplate grammar start expr)
    return .inr expr

/-- Whether strict code may not change this expression. -/
def isRestrictedName (expr : Tree) : Bool := expr.isIdentifier && isRestricted expr.name

/-- An increment or decrement. -/
def finishUpdate (start : Point) (operator : Text) (argument : Tree) (before : Bool) :
    Parse Tree :=
  finish start "UpdateExpression"
    [("operator", .text operator), ("argument", argument), ("prefix", .flag before)]

/-- Reads an increment or decrement, or a chain without one. -/
def updateExpression (grammar : Rules) : Parse Tree := do
  let start ← startHere
  if ← seesAny ["++", "--"] then
    let token ← nextToken
    let argument ← inherited (grammar .unary)
    if (← isStrict) && isRestrictedName argument then complain .prefixTarget
    unless (← context).isAssignmentTarget do complain .assignmentTarget
    let expr ← finishUpdate start token.value argument true
    noTarget
    return expr
  let expr ← inherited (grammar .callChain)
  -- After a line break the sign belongs to the next statement.
  if !(← lineBreak) && (← seesAny ["++", "--"]) then
    if (← isStrict) && isRestrictedName expr then complain .postfixTarget
    unless (← context).isAssignmentTarget do complain .assignmentTarget
    noTarget
    let token ← nextToken
    finishUpdate start token.value expr false
  else return expr

/-- Reads an expression with prefix operators. -/
def unaryExpression (grammar : Rules) : Parse Tree := do
  let start ← startHere
  let token ← ahead
  let isOperator := (token.kind == .punctuator && token.value.isOneOf ["+", "-", "~", "!"]) ||
    (token.kind == .keyword && token.value.isOneOf ["delete", "void", "typeof"])
  if isOperator then
    let _ ← nextToken
    let argument ← inherited (grammar .unary)
    let expr ← finish start "UnaryExpression"
      [("operator", .text token.value), ("argument", argument)]
    if (← isStrict) && token.value == "delete" && argument.isIdentifier then complain .deleteName
    noTarget
    return expr
  if (← context).allowAwait && (← seesContextual "await") then
    let _ ← nextToken
    let argument ← grammar .unary
    finish start "AwaitExpression" [("argument", argument)]
  else updateExpression grammar

/-- Reads a power. -/
def exponentExpression (grammar : Rules) : Parse Tree := do
  let start ← startHere
  let left ← inherited (grammar .unary)
  -- A sign before the base would leave open which of the two binds first.
  if !left.isA "UnaryExpression" && (← sees "**") then
    let _ ← nextToken
    noTarget
    let right ← isolated (grammar .exponent)
    finish start "BinaryExpression" [("operator", .text "**"), ("left", left), ("right", right)]
  else return left

/-- How tightly a token binds as an operator between two expressions; zero if it is none. -/
def precedence (allowIn : Bool) (token : Token) : Nat :=
  match token.kind with
  | .punctuator =>
    match token.value.string?.getD "" with
    | "||" => 1
    | "&&" => 2
    | "|" => 3
    | "^" => 4
    | "&" => 5
    | "==" | "!=" | "===" | "!==" => 6
    | "<" | ">" | "<=" | ">=" => 7
    | "<<" | ">>" | ">>>" => 8
    | "+" | "-" => 9
    | "*" | "/" | "%" => 11
    | _ => 0
  | .keyword =>
    if token.value == "instanceof" || (allowIn && token.value == "in") then 7 else 0
  | _ => 0

/-- An expression waiting for its right side: where it starts, its left side, its operator. -/
structure Pending where
  start : Point
  left : Tree
  operator : Text
  precedence : Nat

/-- An operator between two expressions. -/
def finishBinary (p : Pending) (right : Tree) : Parse Tree :=
  let kind := if p.operator == "||" || p.operator == "&&" then "LogicalExpression"
    else "BinaryExpression"
  finish p.start kind [("operator", .text p.operator), ("left", p.left), ("right", right)]

/-- Closes the waiting expressions that bind at least as tightly as the operator that follows; gives
where the result starts. -/
def closePending (bound : Nat) : List Pending → Point → Tree → Parse (List Pending × Point × Tree)
  | [], start, right => return ([], start, right)
  | p :: rest, start, right =>
    if bound ≤ p.precedence then do closePending bound rest p.start (← finishBinary p right)
    else return (p :: rest, start, right)

/-- Reads operators between expressions. -/
def binaryExpression (grammar : Rules) : Parse Tree := do
  let start ← startHere
  let first ← inherited (grammar .exponent)
  let weight (token : Token) : Parse Nat := do
    return precedence (← context).allowIn token
  if (← weight (← ahead)) == 0 then return first
  let (pending, start, last) ← loop (([] : List Pending), start, first)
    fun (pending, start, right) => do
      let bound ← weight (← ahead)
      if bound == 0 then return .inr (pending, start, right)
      -- What binds as tightly as the operator ahead is complete.
      let (pending, start, left) ← closePending bound pending start right
      let token ← nextToken
      if pending.isEmpty then noTarget
      let rightStart ← startHere
      let next ← isolated (grammar .exponent)
      let entry : Pending := { start, left, operator := token.value, precedence := bound }
      return .inl (entry :: pending, rightStart, next)
  -- No operator follows, so everything is complete.
  let (_, _, expr) ← closePending 0 pending start last
  return expr

/-- Reads a choice between two expressions. -/
def conditionalExpression (grammar : Rules) : Parse Tree := do
  let start ← startHere
  let test ← inherited (binaryExpression grammar)
  if ← sees "?" then
    let _ ← nextToken
    let outer ← context
    setContext fun c => { c with allowIn := true }
    let consequent ← isolated (grammar .assignment)
    setContext fun c => { c with allowIn := outer.allowIn }
    expect ":"
    let alternate ← isolated (grammar .assignment)
    let expr ← finish start "ConditionalExpression"
      [("test", test), ("consequent", consequent), ("alternate", alternate)]
    noTarget
    return expr
  else return test

/-- Reads `yield` and its operand. -/
def yieldExpression (grammar : Rules) : Parse Tree := do
  let start ← startHere
  expectWord "yield"
  let (argument, delegate) ← if ← lineBreak then pure (Tree.null, false) else do
    let outer ← context
    setContext fun c => { c with allowYield := false }
    -- A star hands over to another generator and needs an operand.
    let delegate ← sees "*"
    let argument ← if delegate then do
      let _ ← nextToken
      grammar .assignment
    else if (← ahead).startsOperand then grammar .assignment
    else pure .null
    setContext fun c => { c with allowYield := outer.allowYield }
    pure (argument, delegate)
  finish start "YieldExpression" [("argument", argument), ("delegate", .flag delegate)]

mutual

/-- The names a pattern binds, in order. -/
def patternNames : Tree → List Text
  | .node kind _ fields =>
    if kind == some "Identifier" then [nameIn fields]
    else if kind == some "RestElement" then namesUnder "argument" fields
    else if kind == some "AssignmentPattern" then namesUnder "left" fields
    else if kind == some "ArrayPattern" then namesUnder "elements" fields
    else if kind == some "ObjectPattern" then namesUnder "properties" fields
    else if kind == some "Property" then namesUnder "value" fields
    else []
  | .list items => namesOfAll items
  | _ => []

/-- The names the value of a field binds. -/
def namesUnder (key : String) : List (String × Tree) → List Text
  | [] => []
  | (k, value) :: rest => if k = key then patternNames value else namesUnder key rest

/-- The names bound by trees in a row. -/
def namesOfAll : List Tree → List Text
  | [] => []
  | t :: rest => patternNames t ++ namesOfAll rest

/-- The text of the field `name`. -/
def nameIn : List (String × Tree) → Text
  | [] => ""
  | (k, value) :: rest => if k = "name" then value.textD else nameIn rest

end

/-- A default of `yield` alone, where it is an ordinary name after all. -/
def yieldAsName (param : Tree) : Parse Tree := do
  let right := param.get "right"
  if param.isA "AssignmentPattern" && right.isA "YieldExpression" then
    unless (right.get "argument").isNull do unexpectedAhead
    return param.mapField "right" fun right =>
      .node (some "Identifier") right.mark [("name", .text "yield")]
  return param

/-- The parameters of an arrow function read as an expression; no other expression has any. -/
def arrowParameters (expr : Tree) : Parse (Option Parameters) := do
  let isHead := expr.isA arrowHeadKind
  unless isHead || expr.isIdentifier do return none
  let isAsync := (expr.get "async").isSet
  let params := if isHead then (expr.get "params").items else [expr]
  let params ← params.mapM fun param => do
    -- An async function has `await` as an operator.
    if !param.isA "AssignmentPattern" && isAsync && param.isNamed "await" then unexpectedAhead
    yieldAsName param
  let c ← context
  let p : Parameters := params.foldl (fun p param =>
    let p := (patternNames param).foldl (fun p name => p.bind c.isStrict .here name) p
    { p with simple := p.simple && param.isIdentifier }) {}
  if c.isStrict || !c.allowYield then
    if params.any (·.isA "YieldExpression") then unexpectedAhead
  -- Unlike those of other functions these may never repeat a name.
  if p.complaint == some .duplicateParameter then refuse .duplicateParameter
  return some { p with params }

/-- Reads the arrow and the body of an arrow function. -/
def arrowFunction (grammar : Rules) (start : Point) (p : Parameters) (isAsync : Bool) :
    Parse Tree := do
  -- The arrow has to stand on the line of its parameters.
  if ← lineBreak then tolerateToken (← ahead)
  -- Defaults among the parameters are in order now.
  setContext fun c => { c with patternOnly := none }
  let outer ← context
  setContext fun c => { c with
    allowStrictDirective := p.simple, allowYield := true, allowAwait := isAsync }
  expect "=>"
  let body ← if ← sees "\x7b" then do
    setContext fun c => { c with allowIn := true }
    let body ← functionBody grammar
    setContext fun c => { c with allowIn := outer.allowIn }
    pure body
  else isolated (grammar .assignment)
  if ← isStrict then
    if let some culprit := p.restricted then throw (← p.fault culprit)
    if let some culprit := p.stricted then tolerate (← p.fault culprit)
  let expr ← finish start "ArrowFunctionExpression" [("params", .list p.params), ("body", body),
    ("generator", .flag false), ("expression", .flag (!body.isA "BlockStatement")),
    ("async", .flag isAsync)]
  setContext fun c => { c with
    isStrict := outer.isStrict
    allowStrictDirective := outer.allowStrictDirective
    allowYield := outer.allowYield
    allowAwait := outer.allowAwait }
  return expr

/-- The assignment operators. -/
def assignmentOperators : List String :=
  ["=", "*=", "**=", "/=", "%=", "+=", "-=", "<<=", ">>=", ">>>=", "&=", "^=", "|="]

/-- Reads the operator and right side of an assignment. -/
def assignmentRest (grammar : Rules) (startToken : Token) (target : Tree) : Parse Tree := do
  unless (← context).isAssignmentTarget do complain .assignmentTarget
  if (← isStrict) && target.isIdentifier then
    if isRestricted target.name then tolerateAt startToken .strictAssignment
    if isStrictReserved target.name then tolerateAt startToken .strictReserved
  let plain ← sees "="
  unless plain do noTarget
  -- Only a plain assignment takes a value apart.
  let left := if plain then asPattern target else target
  let token ← nextToken
  let right ← isolated (grammar .assignment)
  let expr ← finish (startAt startToken) "AssignmentExpression"
    [("operator", .text token.value), ("left", left), ("right", right)]
  setContext fun c => { c with patternOnly := none }
  return expr

/-- Reads an expression without commas. -/
def assignmentExpression (grammar : Rules) : Parse Tree := do
  if !(← context).allowYield && (← seesWord "yield") then return ← yieldExpression grammar
  let startToken ← ahead
  let read ← conditionalExpression grammar
  let next ← ahead
  -- After `async` a name on the same line is the one parameter of an arrow function.
  let expr ← if startToken.isContextual "async" && startToken.lastLine == next.lastLine &&
      (next.kind == .identifier || next.isWord "yield") then do
    let argument ← primary grammar
    pure (arrowHead [asPattern argument] true)
  else pure read
  if expr.isA arrowHeadKind || (← sees "=>") then
    noTarget
    let isAsync := expr.isA arrowHeadKind && (expr.get "async").isSet
    match ← arrowParameters expr with
    | some p => arrowFunction grammar (startAt startToken) p isAsync
    | none => return expr
  else if ← seesAny assignmentOperators then assignmentRest grammar startToken expr
  else return expr

end ModuleLift.Grammar
