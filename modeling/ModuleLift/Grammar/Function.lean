import ModuleLift.Grammar.Arguments

/-! Functions: parameters, bodies, and the methods and accessors built from them. -/

namespace ModuleLift.Grammar

open Parse

/-- What a complaint about a parameter points at: its token, or, where only the tree is left, the
end of the last token read. -/
inductive Culprit where
  | token (token : Token)
  | here

/-- Parameters, with what strict code would have against them. -/
structure Parameters where
  params : List Tree := []
  /-- Whether all of them are plain names. -/
  simple : Bool := true
  /-- A parameter that strict code refuses where it stands. -/
  stricted : Option Culprit := none
  /-- The first name that the code refuses if its body turns out to be strict. -/
  restricted : Option Culprit := none
  complaint : Option Complaint := none
  /-- The names met so far. -/
  names : List Text := []

namespace Parameters

/-- Takes note of a name a parameter binds. -/
def bind (p : Parameters) (strict : Bool) (culprit : Culprit) (name : Text) : Parameters :=
  let repeated := p.names.contains name
  let checked :=
    -- In strict code the last name that offends counts, elsewhere the first.
    if strict then
      let p := if isRestricted name then
        { p with stricted := some culprit, complaint := some .parameterName } else p
      if repeated then
        { p with stricted := some culprit, complaint := some .duplicateParameter } else p
    else if p.restricted.isNone then
      if isRestricted name then
        { p with restricted := some culprit, complaint := some .parameterName }
      else if isStrictReserved name then
        { p with restricted := some culprit, complaint := some .strictReserved }
      else if repeated then
        { p with stricted := some culprit, complaint := some .duplicateParameter }
      else p
    else p
  { checked with names := name :: checked.names }

/-- The fault of a culprit. -/
def fault (p : Parameters) (culprit : Culprit) : Parse Fault := do
  let complaint := p.complaint.getD .illegalText
  match culprit with
  | .token token => faultAt token complaint
  | .here => faultHere complaint

end Parameters

/-- Reads `...` and the pattern of the last parameter. -/
def restParameter (grammar : Rules) : Parse (Tree × List Token) := do
  let start ← startHere
  expect "..."
  let (argument, bound) ← grammar (.pattern "")
  if ← sees "=" then refuse (.token "=")
  unless ← sees ")" do refuse .restNotLast
  return (← finish start "RestElement" [("argument", argument)], bound)

/-- Reads a parameter. -/
def parameter (grammar : Rules) (p : Parameters) : Parse Parameters := do
  let (param, bound) ←
    if ← sees "..." then restParameter grammar else patternWithDefault grammar ""
  let strict ← isStrict
  let p := bound.foldl (fun p token => p.bind strict (.token token) token.value) p
  return { p with simple := p.simple && param.isIdentifier, params := p.params ++ [param] }

/-- Reads parameters in parentheses, after a name that may already be restricted. -/
def parameters (grammar : Rules) (before : Parameters) : Parse Parameters := do
  expect "("
  let read ← if ← sees ")" then pure before else
    loop before fun p => do
      -- At the end of the text the missing parenthesis is the complaint.
      if ← seesEnd then return .inr p
      let p ← parameter grammar p
      if ← sees ")" then return .inr p
      expect ","
      if ← sees ")" then return .inr p
      return .inl p
  expect ")"
  return read

/-- Reads a statement that may be a directive; gives the text between the quotes if it is one. -/
def directive (grammar : Rules) : Parse (Tree × Option Text) := do
  let token ← ahead
  let start ← startHere
  let expr ← expression grammar
  -- What counts is the text as written, without its quotes.
  let inner := (token.raw.drop 1).dropLast
  let text := if expr.isA "Literal" && inner != "" then some inner else none
  endStatement
  let extra := match text with
    | some text => [("directive", Tree.text text)]
    | none => []
  return (← finish start "ExpressionStatement" ([("expression", expr)] ++ extra), text)

/-- Reads the directives at the start of a body; `use strict` takes effect. -/
def directives (grammar : Rules) : Parse (List Tree) := do
  let (body, _) ← loop (([] : List Tree), (none : Option Token)) fun (body, octal) => do
    let token ← ahead
    if token.kind != .string then return .inr (body, octal)
    let (statement, text) ← directive grammar
    let body := body ++ [statement]
    match text with
    | none => return .inr (body, octal)
    | some text =>
      if text == "use strict" then
        setContext fun c => { c with isStrict := true }
        -- Octal escapes in the directives before this one are now wrong too.
        if let some earlier := octal then tolerateAt earlier .octalLiteral
        unless (← context).allowStrictDirective do tolerateAt token .strictDirective
        return .inl (body, octal)
      return .inl (body, if octal.isNone && token.octal then some token else octal)
  return body

/-- Reads the braces and body of a function. -/
def functionBody (grammar : Rules) : Parse Tree := do
  let start ← startHere
  expect "\x7b"
  let first ← directives grammar
  -- Labels, loops and switches outside do not reach into the body.
  let outer ← context
  setContext fun c => { c with
    labels := [], inIteration := false, inSwitch := false, inFunctionBody := true }
  let bodyEnds : Parse Bool := do return (← seesEnd) || (← sees "\x7d")
  let rest ← manyUntil bodyEnds (grammar .item)
  expect "\x7d"
  setContext fun c => { c with
    labels := outer.labels
    inIteration := outer.inIteration
    inSwitch := outer.inSwitch
    inFunctionBody := outer.inFunctionBody }
  finish start "BlockStatement" [("body", .list (first ++ rest))]

/-- Reads the body of a method and checks its parameters against it. -/
def methodBody (grammar : Rules) (p : Parameters) : Parse Tree := do
  noTarget
  let outer ← context
  setContext fun c => { c with allowStrictDirective := p.simple }
  let body ← isolated (functionBody grammar)
  -- Only now is it known whether the body made itself strict.
  if ← isStrict then
    if let some culprit := p.restricted then tolerate (← p.fault culprit)
    if let some culprit := p.stricted then tolerate (← p.fault culprit)
  setContext fun c => { c with
    isStrict := outer.isStrict, allowStrictDirective := outer.allowStrictDirective }
  return body

/-- A function with its parameters and body. -/
def finishFunction (start : Point) (kind : String) (id : Tree) (params : List Tree) (body : Tree)
    (generator isAsync : Bool) : Parse Tree :=
  finish start kind [("id", id), ("params", .list params), ("body", body),
    ("generator", .flag generator), ("expression", .flag false), ("async", .flag isAsync)]

/-- Reads the parameters and body of a method. -/
def method (grammar : Rules) : Parse Tree := do
  let start ← startHere
  let outer ← context
  setContext fun c => { c with allowYield := true }
  let p ← parameters grammar {}
  let body ← methodBody grammar p
  setContext fun c => { c with allowYield := outer.allowYield }
  finishFunction start "FunctionExpression" .null p.params body false false

/-- Reads the parameters and body of an async method. -/
def asyncMethod (grammar : Rules) : Parse Tree := do
  let start ← startHere
  let outer ← context
  setContext fun c => { c with allowYield := false, allowAwait := true }
  let p ← parameters grammar {}
  let body ← methodBody grammar p
  setContext fun c => { c with allowYield := outer.allowYield, allowAwait := outer.allowAwait }
  finishFunction start "FunctionExpression" .null p.params body false true

/-- Reads the parameters and body of a getter, which has no parameters. -/
def getter (grammar : Rules) : Parse Tree := do
  let start ← startHere
  let outer ← context
  setContext fun c => { c with allowYield := true }
  let p ← parameters grammar {}
  unless p.params.isEmpty do complain .getterParameters
  let body ← methodBody grammar p
  setContext fun c => { c with allowYield := outer.allowYield }
  finishFunction start "FunctionExpression" .null p.params body false false

/-- Reads the parameters and body of a setter, which has one parameter. -/
def setter (grammar : Rules) : Parse Tree := do
  let start ← startHere
  let outer ← context
  setContext fun c => { c with allowYield := true }
  let p ← parameters grammar {}
  match p.params with
  | [param] => if param.isA "RestElement" then complain .setterRest
  | _ => complain .setterParameters
  let body ← methodBody grammar p
  setContext fun c => { c with allowYield := outer.allowYield }
  finishFunction start "FunctionExpression" .null p.params body false false

/-- Reads the parameters and body of a generator method. -/
def generatorMethod (grammar : Rules) : Parse Tree := do
  let start ← startHere
  let outer ← context
  setContext fun c => { c with allowYield := true }
  let p ← parameters grammar {}
  -- In the body `yield` is an operator, among the parameters it is a name.
  setContext fun c => { c with allowYield := false }
  let body ← methodBody grammar p
  setContext fun c => { c with allowYield := outer.allowYield }
  finishFunction start "FunctionExpression" .null p.params body true false

/-- What strict code has against the name of a function, to be kept until its body is read. -/
def nameRestriction (token : Token) : Parse Parameters := do
  if ← isStrict then
    if isRestricted token.value then tolerateAt token .functionName
    return {}
  if isRestricted token.value then
    return { restricted := some (.token token), complaint := some .functionName }
  if isStrictReserved token.value then
    return { restricted := some (.token token), complaint := some .strictReserved }
  return {}

/-- Reads the parameters and body of a function after its name. -/
def functionRest (grammar : Rules) (start : Point) (kind : String) (id : Tree)
    (before : Parameters) (generator isAsync : Bool) (outer : Context) : Parse Tree := do
  let p ← parameters grammar before
  let inner ← context
  setContext fun c => { c with allowStrictDirective := p.simple }
  let body ← functionBody grammar
  -- The name and the parameters answer to a body that made itself strict.
  if ← isStrict then
    if let some culprit := p.restricted then throw (← p.fault culprit)
    if let some culprit := p.stricted then tolerate (← p.fault culprit)
  setContext fun c => { c with
    isStrict := inner.isStrict
    allowStrictDirective := inner.allowStrictDirective
    allowAwait := outer.allowAwait
    allowYield := outer.allowYield }
  finishFunction start kind id p.params body generator isAsync

/-- Reads `async`, `function` and `*`; says whether the function is async and a generator. -/
def functionHead : Parse (Bool × Bool) := do
  let isAsync ← seesContextual "async"
  if isAsync then
    let _ ← nextToken
  expectWord "function"
  let generator ← if isAsync then pure false else sees "*"
  if generator then
    let _ ← nextToken
  return (isAsync, generator)

/-- Reads a function declaration; after `export default` its name may be left out. -/
def functionDeclaration (grammar : Rules) (nameOptional : Bool) : Parse Tree := do
  let start ← startHere
  let (isAsync, generator) ← functionHead
  let nameless := nameOptional && (← sees "(")
  let (id, before) ← if nameless then pure (Tree.null, ({} : Parameters)) else do
    let token ← ahead
    let id ← bindingName ""
    pure (id, ← nameRestriction token)
  -- The name still belongs to the code around the function.
  let outer ← context
  setContext fun c => { c with allowAwait := isAsync, allowYield := !generator }
  functionRest grammar start "FunctionDeclaration" id before generator isAsync outer

/-- Reads a function expression. -/
def functionExpression (grammar : Rules) : Parse Tree := do
  let start ← startHere
  let (isAsync, generator) ← functionHead
  -- The name already belongs to the function itself.
  let outer ← context
  setContext fun c => { c with allowAwait := isAsync, allowYield := !generator }
  let (id, before) ← if ← sees "(" then pure (Tree.null, ({} : Parameters)) else do
    let token ← ahead
    let id ← if !(← isStrict) && !generator && (← seesWord "yield") then identifierName
      else bindingName ""
    pure (id, ← nameRestriction token)
  functionRest grammar start "FunctionExpression" id before generator isAsync outer

/-- Whether `async function` stands here on one line. -/
def seesAsyncFunction : Parse Bool := do
  unless ← seesContextual "async" do return false
  let line := (← get).scanner.cursor.line
  let token ← scan Scan.lookAhead
  return line == token.lastLine && token.isWord "function"

end ModuleLift.Grammar
