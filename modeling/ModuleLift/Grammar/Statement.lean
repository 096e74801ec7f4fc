import ModuleLift.Grammar.Expression

/-! Statements and declarations. -/

namespace ModuleLift.Grammar

open Parse

/-- Reads statements in braces. -/
def block (grammar : Rules) : Parse Tree := do
  let start ← startHere
  expect "\x7b"
  let body ← manyUntil (sees "\x7d") (grammar .item)
  expect "\x7d"
  finish start "BlockStatement" [("body", .list body)]

/-- A declared pattern with its initializer. -/
def finishDeclarator (start : Point) (id init : Tree) : Parse Tree :=
  finish start "VariableDeclarator" [("id", id), ("init", init)]

/-- A declaration of some kind. -/
def finishDeclaration (start : Point) (kind : Text) (declarators : List Tree) : Parse Tree :=
  finish start "VariableDeclaration" [("declarations", .list declarators), ("kind", .text kind)]

/-- Reads the pattern of a declarator. -/
def declaredPattern (grammar : Rules) (kind : Text) : Parse Tree := do
  let (id, _) ← grammar (.pattern kind)
  if (← isStrict) && isRestrictedName id then complain .variableName
  return id

/-- Reads a declarator of `let` or `const`. -/
def lexicalDeclarator (grammar : Rules) (kind : Text) (inFor : Bool) : Parse Tree := do
  let start ← startHere
  let id ← declaredPattern grammar kind
  let init ← if kind == "const" then do
    -- In the head of a loop the range gives the value.
    if (← seesWord "in") || (← seesContextual "of") then pure .null
    else if ← sees "=" then
      let _ ← nextToken
      isolated (grammar .assignment)
    else refuse (.missingInitializer "const")
  -- A pattern has nothing to take apart without an initializer.
  else if (!inFor && !id.isIdentifier) || (← sees "=") then do
    expect "="
    isolated (grammar .assignment)
  else pure .null
  finishDeclarator start id init

/-- Reads a declarator of `var`. -/
def varDeclarator (grammar : Rules) (inFor : Bool) : Parse Tree := do
  let start ← startHere
  let id ← declaredPattern grammar "var"
  let init ← if ← sees "=" then do
    let _ ← nextToken
    isolated (grammar .assignment)
  else do
    if !id.isIdentifier && !inFor then expect "="
    pure .null
  finishDeclarator start id init

/-- Reads declarators with commas between them. -/
def declarators (one : Parse Tree) : Parse (List Tree) := do
  loop [← one] fun read => do
    if ← sees "," then
      let _ ← nextToken
      return .inl ((← one) :: read)
    return .inr read.reverse

/-- Reads a `let` or `const` declaration. -/
def lexicalDeclaration (grammar : Rules) : Parse Tree := do
  let start ← startHere
  let kind := (← nextToken).value
  let read ← declarators (lexicalDeclarator grammar kind false)
  endStatement
  finishDeclaration start kind read

/-- Reads a `var` declaration. -/
def varDeclaration (grammar : Rules) : Parse Tree := do
  let start ← startHere
  expectWord "var"
  let read ← declarators (varDeclarator grammar false)
  endStatement
  finishDeclaration start "var" read

/-- Whether the word `let` that stands here starts a declaration. -/
def letDeclares : Parse Bool := do
  let token ← scan Scan.lookAhead
  return token.kind == .identifier || token.isPunctuator "[" || token.isPunctuator "\x7b" ||
    token.isWord "let" || token.isWord "yield"

/-- Reads an expression as a statement. -/
def expressionStatement (grammar : Rules) : Parse Tree := do
  let start ← startHere
  let expr ← expression grammar
  endStatement
  finish start "ExpressionStatement" [("expression", expr)]

/-- Reads a branch of `if`. -/
def ifBranch (grammar : Rules) : Parse Tree := do
  if (← isStrict) && (← seesWord "function") then complain .functionInStatement
  grammar .statement

/-- Reads the parenthesis after a condition and then the body; lenient reading takes anything for
the parenthesis and then goes without a body. -/
def afterCondition (body : Parse Tree) : Parse Tree := do
  if !(← sees ")") && (← isLenient) then
    tolerateToken (← nextToken)
    finish (← startHere) "EmptyStatement" []
  else
    expect ")"
    body

/-- Reads `if`. -/
def ifStatement (grammar : Rules) : Parse Tree := do
  let start ← startHere
  expectWord "if"
  expect "("
  let test ← expression grammar
  -- Without its parenthesis a lenient reading gives up the branches.
  if !(← sees ")") && (← isLenient) then
    tolerateToken (← nextToken)
    let consequent ← finish (← startHere) "EmptyStatement" []
    return ← finish start "IfStatement" [("test", test), ("consequent", consequent)]
  expect ")"
  let consequent ← ifBranch grammar
  let alternate ← if ← seesWord "else" then do
    let _ ← nextToken
    ifBranch grammar
  else pure .null
  finish start "IfStatement"
    [("test", test), ("consequent", consequent), ("alternate", alternate)]

/-- Reads the body of a loop. -/
def loopBody (body : Parse Tree) : Parse Tree := do
  let outer ← context
  setContext fun c => { c with inIteration := true }
  let read ← body
  setContext fun c => { c with inIteration := outer.inIteration }
  return read

/-- Reads `do`. -/
def doStatement (grammar : Rules) : Parse Tree := do
  let start ← startHere
  expectWord "do"
  let body ← loopBody (grammar .statement)
  expectWord "while"
  expect "("
  let test ← expression grammar
  if !(← sees ")") && (← isLenient) then tolerateToken (← nextToken)
  else
    expect ")"
    if ← sees ";" then
      let _ ← nextToken
  finish start "DoWhileStatement" [("body", body), ("test", test)]

/-- Reads `while`. -/
def whileStatement (grammar : Rules) : Parse Tree := do
  let start ← startHere
  expectWord "while"
  expect "("
  let test ← expression grammar
  let body ← afterCondition (loopBody (grammar .statement))
  finish start "WhileStatement" [("test", test), ("body", body)]

/-- What the head of a `for` runs over. -/
inductive ForHead where
  /-- Up to the first semicolon: what is done before the loop. -/
  | counted (init : Tree)
  /-- The target and the object whose keys it runs through. -/
  | overKeys (left right : Tree)
  /-- The target and the object whose values it runs through. -/
  | overValues (left right : Tree)

/-- Reads the right side of `in` or `of`. -/
def forRange (grammar : Rules) (left : Tree) (keys : Bool) : Parse ForHead := do
  let _ ← nextToken
  if keys then return .overKeys left (← expression grammar)
  else return .overValues left (← grammar .assignment)

/-- Reads with `in` taken for the loop's own word. -/
def withoutIn {α : Type} (step : Parse α) : Parse α := do
  let outer ← context
  setContext fun c => { c with allowIn := false }
  let answer ← step
  setContext fun c => { c with allowIn := outer.allowIn }
  return answer

/-- Reads the head of a `for` that declares with `var`. -/
def forVar (grammar : Rules) : Parse ForHead := do
  let start ← startHere
  let _ ← nextToken
  let read ← withoutIn (declarators (varDeclarator grammar true))
  let single := read.length == 1
  let first := read.headD .null
  if single && (← seesWord "in") then
    let id := first.get "id"
    let destructures := id.isA "ArrayPattern" || id.isA "ObjectPattern"
    -- Old code may give a plain name a value that the loop then replaces.
    if !(first.get "init").isNull && (destructures || (← isStrict)) then
      complain (.loopInitializer "for-in")
    forRange grammar (← finishDeclaration start "var" read) true
  else if single && (first.get "init").isNull && (← seesContextual "of") then
    forRange grammar (← finishDeclaration start "var" read) false
  else
    let init ← finishDeclaration start "var" read
    expect ";"
    return .counted init

/-- Reads the head of a `for` that declares with `let` or `const`. -/
def forLexical (grammar : Rules) : Parse ForHead := do
  let start ← startHere
  let kind := (← nextToken).value
  -- Here `let` is the name of a variable that the loop sets.
  if !(← isStrict) && (← ahead).value == "in" then
    return ← forRange grammar (← finishName start kind) true
  let read ← withoutIn (declarators (lexicalDeclarator grammar kind true))
  let bare := read.length == 1 && ((read.headD .null).get "init").isNull
  if bare && (← seesWord "in") then
    forRange grammar (← finishDeclaration start kind read) true
  else if bare && (← seesContextual "of") then
    forRange grammar (← finishDeclaration start kind read) false
  else
    endStatement
    return .counted (← finishDeclaration start kind read)

/-- Reads the head of a `for` that declares nothing. -/
def forPlain (grammar : Rules) : Parse ForHead := do
  let start ← startHere
  -- Whether this is a target shows only after it.
  let init ← withoutIn (inherited (grammar .assignment))
  let assignable : Parse Bool := do
    return (← context).isAssignmentTarget && !init.isA "AssignmentExpression"
  if ← seesWord "in" then
    unless ← assignable do complain .forInTarget
    forRange grammar (asPattern init) true
  else if ← seesContextual "of" then
    unless ← assignable do complain .forOfTarget
    forRange grammar (asPattern init) false
  else
    let init ← if ← sees "," then do
      let more ← moreExpressions grammar
      finish start "SequenceExpression" [("expressions", .list (init :: more))]
    else pure init
    expect ";"
    return .counted init

/-- Reads `for`. -/
def forStatement (grammar : Rules) : Parse Tree := do
  let start ← startHere
  expectWord "for"
  expect "("
  let head ← if ← sees ";" then do
    let _ ← nextToken
    pure (ForHead.counted .null)
  else if ← seesWord "var" then forVar grammar
  else if (← seesWord "const") || (← seesWord "let") then forLexical grammar
  else forPlain grammar
  let (test, update) ← match head with
    | .counted _ => do
      let test ← if ← sees ";" then pure Tree.null else expression grammar
      expect ";"
      let update ← if ← sees ")" then pure Tree.null else expression grammar
      pure (test, update)
    | _ => pure (Tree.null, Tree.null)
  let body ← afterCondition (loopBody (isolated (grammar .statement)))
  match head with
  | .counted init =>
    finish start "ForStatement"
      [("init", init), ("test", test), ("update", update), ("body", body)]
  | .overKeys left right =>
    finish start "ForInStatement" [("left", left), ("right", right), ("body", body)]
  | .overValues left right =>
    finish start "ForOfStatement" [("left", left), ("right", right), ("body", body)]

/-- Reads the label of `break` or `continue`, if there is one on the line. -/
def jumpLabel : Parse Tree := do
  if (← ahead).kind == .identifier && !(← lineBreak) then
    let id ← bindingName ""
    -- A label reaches no further than the statement it stands before.
    unless (← context).labels.contains id.name do refuse (.unknownLabel id.name)
    return id
  else return .null

/-- Reads `continue`. -/
def continueStatement : Parse Tree := do
  let start ← startHere
  expectWord "continue"
  let label ← jumpLabel
  endStatement
  if label.isNull && !(← context).inIteration then refuse .illegalContinue
  finish start "ContinueStatement" [("label", label)]

/-- Reads `break`. -/
def breakStatement : Parse Tree := do
  let start ← startHere
  expectWord "break"
  let label ← jumpLabel
  endStatement
  let c ← context
  if label.isNull && !c.inIteration && !c.inSwitch then refuse .illegalBreak
  finish start "BreakStatement" [("label", label)]

/-- Reads `return`. A string or template counts as its value even on the next line. -/
def returnStatement (grammar : Rules) : Parse Tree := do
  unless (← context).inFunctionBody do complain .illegalReturn
  let start ← startHere
  expectWord "return"
  let token ← ahead
  -- A line break ends the statement, except before a string or a template.
  let follows := !(token.isPunctuator ";") && !(token.isPunctuator "\x7d") && !(← lineBreak) &&
    token.kind != .eof
  let argument ← if follows || token.kind == .string || token.kind == .template
    then expression grammar else pure .null
  endStatement
  finish start "ReturnStatement" [("argument", argument)]

/-- Reads `with`. -/
def withStatement (grammar : Rules) : Parse Tree := do
  if ← isStrict then complain .withStatement
  let start ← startHere
  expectWord "with"
  expect "("
  let object ← expression grammar
  let body ← afterCondition (grammar .statement)
  finish start "WithStatement" [("object", object), ("body", body)]

/-- Reads a case of `switch`; says whether it is the default. -/
def switchCase (grammar : Rules) : Parse (Tree × Bool) := do
  let start ← startHere
  let test ← if ← seesWord "default" then do
    let _ ← nextToken
    pure Tree.null
  else do
    expectWord "case"
    expression grammar
  expect ":"
  let caseEnds : Parse Bool := do
    return (← sees "\x7d") || (← seesWord "default") || (← seesWord "case")
  let consequent ← manyUntil caseEnds (grammar .item)
  let tree ← finish start "SwitchCase" [("test", test), ("consequent", .list consequent)]
  return (tree, test.isNull)

/-- Reads `switch`. -/
def switchStatement (grammar : Rules) : Parse Tree := do
  let start ← startHere
  expectWord "switch"
  expect "("
  let discriminant ← expression grammar
  expect ")"
  let outer ← context
  setContext fun c => { c with inSwitch := true }
  expect "\x7b"
  let cases ← loop (([] : List Tree), false) fun (cases, hasDefault) => do
    if ← sees "\x7d" then return .inr cases.reverse
    let (clause, isDefault) ← switchCase grammar
    if isDefault && hasDefault then refuse .defaultTwice
    return .inl (clause :: cases, hasDefault || isDefault)
  expect "\x7d"
  setContext fun c => { c with inSwitch := outer.inSwitch }
  finish start "SwitchStatement" [("discriminant", discriminant), ("cases", .list cases)]

/-- Reads what a label stands before. -/
def labelledBody (grammar : Rules) : Parse Tree := do
  let token ← ahead
  if token.isWord "class" then
    tolerateToken token
    classDeclaration grammar false
  else if token.isWord "function" then
    let declaration ← functionDeclaration grammar false
    if ← isStrict then tolerateAt token .functionInStatement
    else if (declaration.get "generator").isSet then tolerateAt token .generatorLabel
    return declaration
  else grammar .statement

/-- Reads a statement that starts with a name: one with a label, or an expression. -/
def labelledStatement (grammar : Rules) : Parse Tree := do
  let start ← startHere
  let expr ← expression grammar
  if expr.isIdentifier && (← sees ":") then
    let _ ← nextToken
    let name := expr.name
    if (← context).labels.contains name then refuse (.labelTwice name)
    -- The label is in force only while its statement is read.
    setContext fun c => { c with labels := name :: c.labels }
    let body ← labelledBody grammar
    setContext fun c => { c with labels := c.labels.erase name }
    finish start "LabeledStatement" [("label", expr), ("body", body)]
  else
    endStatement
    finish start "ExpressionStatement" [("expression", expr)]

/-- Reads `throw`. -/
def throwStatement (grammar : Rules) : Parse Tree := do
  let start ← startHere
  expectWord "throw"
  if ← lineBreak then refuse .throwLineBreak
  let argument ← expression grammar
  endStatement
  finish start "ThrowStatement" [("argument", argument)]

/-- Complains about each name that occurs twice. -/
def checkDistinct : List Token → List Text → Parse Unit
  | [], _ => return
  | token :: rest, seen => do
    if seen.contains token.value then complain (.duplicateBinding token.value)
    checkDistinct rest (token.value :: seen)

/-- Reads `catch`. -/
def catchClause (grammar : Rules) : Parse Tree := do
  let start ← startHere
  expectWord "catch"
  expect "("
  -- A handler names what it catches.
  if ← sees ")" then unexpectedAhead
  let (param, bound) ← grammar (.pattern "")
  checkDistinct bound []
  if (← isStrict) && isRestrictedName param then complain .catchName
  expect ")"
  let body ← block grammar
  finish start "CatchClause" [("param", param), ("body", body)]

/-- Reads `try`. -/
def tryStatement (grammar : Rules) : Parse Tree := do
  let start ← startHere
  expectWord "try"
  let body ← block grammar
  let handler ← if ← seesWord "catch" then catchClause grammar else pure .null
  let finalizer ← if ← seesWord "finally" then do
    expectWord "finally"
    block grammar
  else pure .null
  -- One of the two has to be there.
  if handler.isNull && finalizer.isNull then refuse .missingHandler
  finish start "TryStatement" [("block", body), ("handler", handler), ("finalizer", finalizer)]

/-- Reads a statement that starts with a keyword. -/
def keywordStatement (grammar : Rules) (word : String) : Parse Tree :=
  match word with
  | "break" => breakStatement
  | "continue" => continueStatement
  | "debugger" => do
    let start ← startHere
    expectWord "debugger"
    endStatement
    finish start "DebuggerStatement" []
  | "do" => doStatement grammar
  | "for" => forStatement grammar
  | "function" => functionDeclaration grammar false
  | "if" => ifStatement grammar
  | "return" => returnStatement grammar
  | "switch" => switchStatement grammar
  | "throw" => throwStatement grammar
  | "try" => tryStatement grammar
  | "var" => varDeclaration grammar
  | "while" => whileStatement grammar
  | "with" => withStatement grammar
  | _ => expressionStatement grammar

/-- Reads a statement. -/
def statement (grammar : Rules) : Parse Tree := do
  let token ← ahead
  match token.kind with
  | .punctuator =>
    if token.value == "\x7b" then block grammar
    else if token.value == ";" then
      let start ← startHere
      expect ";"
      finish start "EmptyStatement" []
    else expressionStatement grammar
  | .identifier =>
    if ← seesAsyncFunction then functionDeclaration grammar false
    else labelledStatement grammar
  | .keyword => keywordStatement grammar (token.value.string?.getD "")
  | .eof => unexpectedAhead
  | _ => expressionStatement grammar

end ModuleLift.Grammar
