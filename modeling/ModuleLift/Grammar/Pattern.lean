import ModuleLift.Grammar.Parse

/-! Names, property keys and binding patterns. -/

namespace ModuleLift.Grammar

open Parse

mutual

/-- An expression read where a pattern was meant, as that pattern. -/
def asPattern : Tree → Tree
  | .node kind mark fields =>
    if kind == some "SpreadElement" then
      .node (some "RestElement") mark (argumentAsPattern fields)
    else if kind == some "ArrayExpression" then
      .node (some "ArrayPattern") mark (elementsAsPatterns fields)
    else if kind == some "ObjectExpression" then
      .node (some "ObjectPattern") mark (propertiesAsPatterns fields)
    else if kind == some "AssignmentExpression" then
      .node (some "AssignmentPattern") mark (targetAsPattern fields)
    -- Names and members are targets as they are.
    else .node kind mark fields
  | other => other

/-- The operand of a spread as a pattern. -/
def argumentAsPattern : List (String × Tree) → List (String × Tree)
  | [] => []
  | (key, value) :: rest =>
    (key, if key = "argument" then asPattern value else value) :: argumentAsPattern rest

/-- The left side of an assignment as a pattern; the operator goes. -/
def targetAsPattern : List (String × Tree) → List (String × Tree)
  | [] => []
  | (key, value) :: rest =>
    if key = "operator" then targetAsPattern rest
    else (key, if key = "left" then asPattern value else value) :: targetAsPattern rest

/-- The elements of an array as patterns. -/
def elementsAsPatterns : List (String × Tree) → List (String × Tree)
  | [] => []
  | (key, .list items) :: rest =>
    (key, if key = "elements" then .list (allAsPatterns items) else .list items) ::
      elementsAsPatterns rest
  | field :: rest => field :: elementsAsPatterns rest

/-- Each tree as a pattern. -/
def allAsPatterns : List Tree → List Tree
  | [] => []
  | t :: rest => asPattern t :: allAsPatterns rest

/-- The properties of an object with their values as patterns. -/
def propertiesAsPatterns : List (String × Tree) → List (String × Tree)
  | [] => []
  | (key, .list items) :: rest =>
    (key, if key = "properties" then .list (valuesAsPatterns items) else .list items) ::
      propertiesAsPatterns rest
  | field :: rest => field :: propertiesAsPatterns rest

/-- Each property with its value as a pattern; a spread is a pattern itself. -/
def valuesAsPatterns : List Tree → List Tree
  | [] => []
  | .node kind mark fields :: rest =>
    (if kind == some "SpreadElement" then
      .node (some "RestElement") mark (argumentAsPattern fields)
    else .node kind mark (valueAsPattern fields)) :: valuesAsPatterns rest
  | t :: rest => t :: valuesAsPatterns rest

/-- The value of a property as a pattern. -/
def valueAsPattern : List (String × Tree) → List (String × Tree)
  | [] => []
  | (key, value) :: rest =>
    (key, if key = "value" then asPattern value else value) :: valueAsPattern rest

end

/-- Reads any word as a name. -/
def identifierName : Parse Tree := do
  let start ← startHere
  let token ← nextToken
  unless token.isAnyName do unexpected token
  finishName start token.value

/-- Reads a name to bind in a declaration of this kind. -/
def bindingName (kind : Text) : Parse Tree := do
  let start ← startHere
  let token ← nextToken
  let c ← context
  if token.isWord "yield" then
    -- As a name `yield` is for code that is neither strict nor a generator.
    if c.isStrict then tolerateAt token .strictReserved
    else if !c.allowYield then unexpected token
  else if token.kind != .identifier then
    if c.isStrict && token.kind == .keyword && isStrictReserved token.value then
      tolerateAt token .strictReserved
    -- Of the keywords only `let` can be bound, and only by `var`.
    else if c.isStrict || token.value != "let" || kind != "var" then unexpected token
  else if (c.isModule || c.allowAwait) && token.value == "await" then tolerateToken token
  finishName start token.value

/-- A literal of a number or string token just read. -/
def finishLiteral (start : Point) (token : Token) : Parse Tree :=
  let value := if token.kind == .string then [("value", Tree.text token.value)] else []
  finish start "Literal" (value ++ [("raw", .text token.raw)])

/-- Reads the key of a property. -/
def propertyKey (grammar : Rules) : Parse Tree := do
  let start ← startHere
  let token ← nextToken
  if token.kind == .string || token.kind == .number then
    if (← isStrict) && token.octal then tolerateAt token .octalLiteral
    finishLiteral start token
  else if token.isAnyName then finishName start token.value
  else if token.isPunctuator "[" then
    -- The key is computed.
    let key ← isolated (grammar .assignment)
    expect "]"
    return key
  else unexpected token

/-- Whether a key that is not computed names this property. -/
def isKey (key : Tree) (name : Text) : Bool :=
  (key.isIdentifier && key.name == name) || (key.isA "Literal" && (key.get "value").isText name)

/-- A property of an object or of a pattern. -/
def finishProperty (start : Point) (kind : Text) (key value : Tree)
    (computed method shorthand : Bool) : Parse Tree :=
  finish start "Property" [("key", key), ("computed", .flag computed), ("value", value),
    ("kind", .text kind), ("method", .flag method), ("shorthand", .flag shorthand)]

/-- Reads a pattern and, if there is one, its default. -/
def patternWithDefault (grammar : Rules) (kind : Text) : Parse (Tree × List Token) := do
  let start ← startHere
  let (pattern, bound) ← grammar (.pattern kind)
  if ← sees "=" then
    let _ ← nextToken
    let outer ← context
    -- A default is read as if outside any generator.
    setContext fun c => { c with allowYield := true }
    let right ← isolated (grammar .assignment)
    setContext fun c => { c with allowYield := outer.allowYield }
    return (← finish start "AssignmentPattern" [("left", pattern), ("right", right)], bound)
  return (pattern, bound)

/-- Reads `...` and the pattern after it. -/
def restPattern (grammar : Rules) (kind : Text) : Parse (Tree × List Token) := do
  let start ← startHere
  expect "..."
  let (argument, bound) ← grammar (.pattern kind)
  return (← finish start "RestElement" [("argument", argument)], bound)

/-- Reads an array pattern. -/
def arrayPattern (grammar : Rules) (kind : Text) : Parse (Tree × List Token) := do
  let start ← startHere
  expect "["
  let (elements, bound) ← loop (([] : List Tree), ([] : List Token)) fun (elements, bound) => do
    if ← sees "]" then return .inr (elements, bound)
    if ← sees "," then
      let _ ← nextToken
      return .inl (elements ++ [.null], bound)
    if ← sees "..." then
      let (element, more) ← restPattern grammar kind
      -- Nothing may come after the rest.
      return .inr (elements ++ [element], bound ++ more)
    let (element, more) ← patternWithDefault grammar kind
    unless ← sees "]" do expect ","
    return .inl (elements ++ [element], bound ++ more)
  expect "]"
  return (← finish start "ArrayPattern" [("elements", .list elements)], bound)

/-- Reads a property of an object pattern. -/
def patternProperty (grammar : Rules) (kind : Text) : Parse (Tree × List Token) := do
  let start ← startHere
  let token ← ahead
  if token.kind == .identifier then
    -- A name alone is both the key and what is bound.
    let key ← bindingName ""
    let name ← finishName start token.value
    if ← sees "=" then
      let _ ← nextToken
      let right ← grammar .assignment
      let value ← finish start "AssignmentPattern" [("left", name), ("right", right)]
      return (← finishProperty start "init" key value false false true, [token])
    if !(← sees ":") then
      return (← finishProperty start "init" key name false false true, [token])
    expect ":"
    let (value, bound) ← patternWithDefault grammar kind
    return (← finishProperty start "init" key value false false false, bound)
  -- Any other key needs a pattern after a colon.
  let computed ← sees "["
  let key ← propertyKey grammar
  expect ":"
  let (value, bound) ← patternWithDefault grammar kind
  return (← finishProperty start "init" key value computed false false, bound)

/-- Reads the rest of an object pattern, which has to be its last part. -/
def restProperty (grammar : Rules) : Parse (Tree × List Token) := do
  let start ← startHere
  expect "..."
  let (argument, bound) ← grammar (.pattern "")
  if ← sees "=" then refuse (.token "=")
  unless ← sees "\x7d" do refuse .misplacedForm
  return (← finish start "RestElement" [("argument", argument)], bound)

/-- Reads an object pattern. -/
def objectPattern (grammar : Rules) (kind : Text) : Parse (Tree × List Token) := do
  let start ← startHere
  expect "\x7b"
  let (properties, bound) ← loop (([] : List Tree), ([] : List Token))
    fun (properties, bound) => do
      if ← sees "\x7d" then return .inr (properties, bound)
      let (property, more) ←
        if ← sees "..." then restProperty grammar else patternProperty grammar kind
      unless ← sees "\x7d" do expect ","
      return .inl (properties ++ [property], bound ++ more)
  expect "\x7d"
  return (← finish start "ObjectPattern" [("properties", .list properties)], bound)

/-- Reads a binding pattern. -/
def bindingPattern (grammar : Rules) (kind : Text) : Parse (Tree × List Token) := do
  if ← sees "[" then arrayPattern grammar kind
  else if ← sees "\x7b" then objectPattern grammar kind
  else
    let token ← ahead
    -- A lexical declaration may not bind the word that opens it.
    if token.isWord "let" && (kind == "const" || kind == "let") then tolerateAt token .letBinding
    return (← bindingName kind, [token])

end ModuleLift.Grammar
