import ModuleLift.Grammar.Class

/-! The smallest expressions: names, literals, templates, arrays, objects and groups. -/

namespace ModuleLift.Grammar

open Parse

/-- The kind of tree that stands for parameters in parentheses until their arrow is read. -/
def arrowHeadKind : String := "ArrowParameterPlaceHolder"

/-- Parameters in parentheses that an arrow has to follow. -/
def arrowHead (params : List Tree) (isAsync : Bool) : Tree :=
  .node (some arrowHeadKind) {} [("params", .list params), ("async", .flag isAsync)]

/-- Reads a piece of a template. -/
def templateElement : Parse (Tree × Token) := do
  let start ← startHere
  let token ← nextToken
  let value : Tree := .node none {} [("raw", .text token.value)]
  return (← finish start "TemplateElement" [("value", value), ("tail", .flag token.tail)], token)

/-- Reads a template with its holes. -/
def templateLiteral (grammar : Rules) : Parse Tree := do
  let start ← startHere
  -- A piece that closes a hole goes on with a template and starts none.
  unless (← ahead).head do refuse .templateHead
  let (first, token) ← templateElement
  let (quasis, expressions) ← loop ([first], ([] : List Tree), token)
    fun (quasis, expressions, token) => do
      if token.tail then return .inr (quasis, expressions)
      let hole ← expression grammar
      -- After a hole only the next piece of the template can come.
      if (← ahead).kind != .template then refuse .illegalText
      let (piece, token) ← templateElement
      return .inl (quasis ++ [piece], expressions ++ [hole], token)
  finish start "TemplateLiteral" [("quasis", .list quasis), ("expressions", .list expressions)]

/-- Reads an array. -/
def arrayLiteral (grammar : Rules) : Parse Tree := do
  let start ← startHere
  expect "["
  let elements ← loop ([] : List Tree) fun elements => do
    if ← sees "]" then return .inr elements.reverse
    if ← sees "," then
      let _ ← nextToken
      -- A comma without an element before it leaves a hole.
      return .inl (.null :: elements)
    if ← sees "..." then
      let element ← spreadElement grammar
      unless ← sees "]" do
        -- A spread that is not last makes no pattern.
        noTarget
        expect ","
      return .inl (element :: elements)
    let element ← inherited (grammar .assignment)
    unless ← sees "]" do expect ","
    return .inl (element :: elements)
  expect "]"
  finish start "ArrayExpression" [("elements", .list elements)]

/-- Reads an accessor or generator method of an object after what announces it. -/
def announcedProperty (grammar : Rules) (start : Point) (kind : Text) (isMethod : Bool)
    (read : Parse Tree) : Parse Tree := do
  let computed ← sees "["
  let key ← propertyKey grammar
  if kind == "get" then setContext fun c => { c with allowYield := false }
  finishProperty start kind key (← read) computed isMethod false

/-- Reads the rest of an ordinary property of an object after its key; says also whether a
prototype was given by now. -/
def plainProperty (grammar : Rules) (start : Point) (token : Token) (key : Tree)
    (computed isAsync hasProto : Bool) : Parse (Tree × Bool) := do
  if (← sees ":") && !isAsync then
    -- A prototype may be given once.
    let isProto := !computed && isKey key "__proto__"
    if isProto && hasProto then complain .protoTwice
    let _ ← nextToken
    let value ← inherited (grammar .assignment)
    return (← finishProperty start "init" key value computed false false, hasProto || isProto)
  if ← sees "(" then
    let value ← if isAsync then asyncMethod grammar else method grammar
    return (← finishProperty start "init" key value computed true false, hasProto)
  if token.kind == .identifier then
    let id ← finishName start token.value
    if ← sees "=" then
      let sign ← ahead
      -- A default is in order only if the object turns out to be a pattern.
      setContext fun c => { c with patternOnly := some sign }
      let _ ← nextToken
      let init ← isolated (grammar .assignment)
      let value ← finish start "AssignmentPattern" [("left", id), ("right", init)]
      return (← finishProperty start "init" key value computed false true, hasProto)
    return (← finishProperty start "init" key id computed false true, hasProto)
  unexpectedNext

/-- Reads a property of an object; says also whether a prototype was given by now. -/
def objectProperty (grammar : Rules) (hasProto : Bool) : Parse (Tree × Bool) := do
  let start ← startHere
  let token ← ahead
  let (key, computed, isAsync) ←
    if token.kind == .identifier then do
      let _ ← nextToken
      let computed ← sees "["
      -- The word `async` is a plain key if a colon, a parenthesis or a comma follows.
      let isAsync := !(← lineBreak) && token.value == "async" &&
        !(← seesAny [":", "(", "*", ","])
      let key ← if isAsync then propertyKey grammar else finishName start token.value
      pure (key, computed, isAsync)
    else if ← sees "*" then do
      let _ ← nextToken
      pure (Tree.null, false, false)
    else do
      let computed ← sees "["
      pure (← propertyKey grammar, computed, false)
  let keyAhead := (← ahead).startsKey
  if token.isContextual "get" && !isAsync && keyAhead then
    return (← announcedProperty grammar start "get" false (getter grammar), hasProto)
  if token.isContextual "set" && !isAsync && keyAhead then
    return (← announcedProperty grammar start "set" false (setter grammar), hasProto)
  if token.isPunctuator "*" && keyAhead then
    return (← announcedProperty grammar start "init" true (generatorMethod grammar), hasProto)
  -- A star without a key after it starts no property.
  if key.isNull then unexpectedAhead
  plainProperty grammar start token key computed isAsync hasProto

/-- Reads an object. -/
def objectLiteral (grammar : Rules) : Parse Tree := do
  let start ← startHere
  expect "\x7b"
  let properties ← loop (([] : List Tree), false) fun (properties, hasProto) => do
    if ← sees "\x7d" then return .inr properties.reverse
    let (property, hasProto) ←
      if ← sees "..." then do pure (← spreadElement grammar, hasProto)
      else objectProperty grammar hasProto
    unless ← sees "\x7d" do expectComma
    return .inl (property :: properties, hasProto)
  expect "\x7d"
  finish start "ObjectExpression" [("properties", .list properties)]

/-- Reads the closing parenthesis after a rest parameter; an arrow has to follow. -/
def closeArrowHead : Parse Unit := do
  expect ")"
  unless ← sees "=>" do expect "=>"

/-- What has been read of a group in parentheses. -/
inductive Group where
  /-- Expressions, which may still turn out to be parameters. -/
  | open_ (expressions : List Tree)
  /-- Parameters of an arrow function, parenthesis closed. -/
  | arrow (params : List Tree)

/-- Reads the rest of a group after its first expression and comma. -/
def groupRest (grammar : Rules) (first : Tree) : Parse Group :=
  loop [first] fun expressions => do
    if (← seesEnd) || !(← sees ",") then return .inr (.open_ expressions)
    let _ ← nextToken
    -- A comma at the end is for parameters only.
    if ← sees ")" then
      let _ ← nextToken
      return .inr (.arrow (allAsPatterns expressions))
    if ← sees "..." then
      -- A rest makes sense only if everything before it can be a parameter.
      unless (← context).isBindingElement do unexpectedAhead
      let (rest, _) ← restParameter grammar
      closeArrowHead
      setContext fun c => { c with isBindingElement := false }
      return .inr (.arrow (allAsPatterns (expressions ++ [rest])))
    return .inl (expressions ++ [← inherited (grammar .assignment)])

/-- Reads the closing parenthesis of a group; before an arrow its content becomes parameters. -/
def closeGroup (expr : Tree) : Parse Tree := do
  expect ")"
  let head ← if ← sees "=>" then
    -- The name `yield` alone is taken for a parameter at once.
    if expr.isNamed "yield" then pure (arrowHead [expr] false)
    else do
      unless (← context).isBindingElement do unexpectedAhead
      if expr.isA "SequenceExpression" then
        pure (arrowHead (allAsPatterns (expr.get "expressions").items) false)
      else pure (arrowHead [asPattern expr] false)
  else pure expr
  setContext fun c => { c with isBindingElement := false }
  return head

/-- Reads a group in parentheses: an expression, or the parameters of an arrow function. -/
def group (grammar : Rules) : Parse Tree := do
  expect "("
  -- An empty group can only be a list of parameters.
  if ← sees ")" then
    let _ ← nextToken
    unless ← sees "=>" do expect "=>"
    return arrowHead [] false
  let start ← startHere
  if ← sees "..." then
    let (rest, _) ← restParameter grammar
    closeArrowHead
    return arrowHead [rest] false
  setContext fun c => { c with isBindingElement := true }
  let first ← inherited (grammar .assignment)
  if ← sees "," then
    -- Expressions with commas between them cannot be assigned to.
    setContext fun c => { c with isAssignmentTarget := false }
    match ← groupRest grammar first with
    | .arrow params => return arrowHead params false
    | .open_ expressions =>
      closeGroup (← finish start "SequenceExpression" [("expressions", .list expressions)])
  else closeGroup first

/-- Whether `import` stands here as a call. -/
def seesImportCall : Parse Bool := do
  unless ← seesWord "import" do return false
  return (← scan Scan.lookAhead).isPunctuator "("

/-- Reads a regular expression. -/
def regularExpression : Parse Tree := do
  let start ← startHere
  noTarget
  let token ← nextRegularExpression
  let parts : Tree := .node none {} [("pattern", .text token.pattern), ("flags", .text token.flags)]
  finish start "Literal" [("raw", .text token.raw), ("regex", parts)]

/-- Reads an expression that starts with a keyword. -/
def keywordPrimary (grammar : Rules) : Parse Tree := do
  let start ← startHere
  let c ← context
  -- Outside strict code two keywords can serve as names.
  if !c.isStrict && c.allowYield && (← seesWord "yield") then identifierName
  else if !c.isStrict && (← seesWord "let") then
    let token ← nextToken
    finishName start token.value
  else
    noTarget
    if ← seesWord "function" then functionExpression grammar
    else if ← seesWord "this" then
      let _ ← nextToken
      finish start "ThisExpression" []
    else if ← seesWord "class" then classExpression grammar
    else if ← seesImportCall then
      expectWord "import"
      finish start "Import" []
    else unexpectedNext

/-- Reads a primary expression. -/
def primary (grammar : Rules) : Parse Tree := do
  let start ← startHere
  let token ← ahead
  match token.kind with
  | .identifier =>
    let c ← context
    if (c.isModule || c.allowAwait) && token.value == "await" then tolerateToken token
    -- On its own `async` is a name like any other.
    if ← seesAsyncFunction then functionExpression grammar
    else
      let token ← nextToken
      finishName start token.value
  | .number | .string =>
    if (← isStrict) && token.octal then tolerateAt token .octalLiteral
    noTarget
    let token ← nextToken
    finishLiteral start token
  | .boolean =>
    noTarget
    let token ← nextToken
    finish start "Literal" [("value", .flag (token.value == "true")), ("raw", .text token.raw)]
  | .null =>
    noTarget
    let token ← nextToken
    -- The value of this literal is null, so the field is left out.
    finish start "Literal" [("raw", .text token.raw)]
  | .template => templateLiteral grammar
  | .punctuator =>
    match token.value.string?.getD "" with
    | "(" =>
      setContext fun c => { c with isBindingElement := false }
      inherited (group grammar)
    | "[" => inherited (arrayLiteral grammar)
    | "\x7b" => inherited (objectLiteral grammar)
    | "/" | "/=" => regularExpression
    | _ => unexpectedNext
  | .keyword => keywordPrimary grammar
  | _ => unexpectedNext

end ModuleLift.Grammar
