import ModuleLift.Grammar.Function

/-! Classes and their members. -/

namespace ModuleLift.Grammar

open Parse

/-- The part of a class member before its parameters. -/
structure MemberHead where
  /-- The token that decides what kind of member follows. -/
  token : Token
  key : Tree := .null
  computed : Bool := false
  isStatic : Bool := false
  isAsync : Bool := false

/-- Reads `static`, `async`, `*` and the key, as far as they are there. -/
def memberHead (grammar : Rules) : Parse MemberHead := do
  let token ← ahead
  if ← sees "*" then
    let _ ← nextToken
    return { token }
  let computed ← sees "["
  let key ← propertyKey grammar
  let head : MemberHead := { token, key, computed }
  -- The word `static` is a key of its own unless another key follows.
  let head ← if (key.get "name").isText "static" &&
      ((← ahead).startsKey || (← sees "*")) then do
    let token ← ahead
    let computed ← sees "["
    if ← sees "*" then
      let _ ← nextToken
      pure { head with token, isStatic := true, computed }
    else pure { head with token, isStatic := true, computed, key := ← propertyKey grammar }
  else pure head
  -- So is `async`, unless a key follows on the same line.
  if head.token.isContextual "async" && !(← lineBreak) then
    let after := (← ahead).value
    if after != ":" && after != "(" && after != "*" then
      let token ← ahead
      let key ← propertyKey grammar
      if token.isContextual "constructor" then tolerateAt token .asyncConstructor
      return { head with token, key, isAsync := true }
  return head

/-- Reads a member of a class; says also whether the class has a constructor by now. -/
def classMember (grammar : Rules) (hasConstructor : Bool) : Parse (Tree × Bool) := do
  let start ← startHere
  let head ← memberHead grammar
  let keyAhead := (← ahead).startsKey
  let token := head.token
  let keyed (kind : String) (read : Parse Tree) : Parse (String × MemberHead × Tree) := do
    let computed ← sees "["
    let key ← propertyKey grammar
    if kind == "get" then setContext fun c => { c with allowYield := false }
    return (kind, { head with computed, key }, ← read)
  -- The words `get` and `set` announce an accessor only before a key.
  let (kind, head, value) ←
    if token.isContextual "get" && keyAhead then keyed "get" (getter grammar)
    else if token.isContextual "set" && keyAhead then keyed "set" (setter grammar)
    else if token.isPunctuator "*" && keyAhead then keyed "method" (generatorMethod grammar)
    else if !head.key.isNull && (← sees "(") then
      let value ← if head.isAsync then asyncMethod grammar else method grammar
      pure ("method", head, value)
    else unexpectedAhead
  -- A computed key may give any name without breaking a rule.
  let plain := !head.computed
  if plain && head.isStatic && isKey head.key "prototype" then refuseAt token .staticPrototype
  let isConstructor := plain && !head.isStatic && isKey head.key "constructor"
  if isConstructor then
    if kind != "method" || (value.get "generator").isSet then refuseAt token .accessorConstructor
    if hasConstructor then refuseAt token .constructorTwice
  let kind := if isConstructor then "constructor" else kind
  let tree ← finish start "MethodDefinition" [("key", head.key), ("computed", .flag head.computed),
    ("value", value), ("kind", .text kind), ("static", .flag head.isStatic)]
  return (tree, hasConstructor || isConstructor)

/-- Reads the braces and members of a class. -/
def classBody (grammar : Rules) : Parse Tree := do
  let start ← startHere
  expect "\x7b"
  let members ← loop (([] : List Tree), false) fun (members, hasConstructor) => do
    if ← sees "\x7d" then return .inr members
    if ← sees ";" then
      let _ ← nextToken
      return .inl (members, hasConstructor)
    let (member, hasConstructor) ← classMember grammar hasConstructor
    return .inl (members ++ [member], hasConstructor)
  expect "\x7d"
  finish start "ClassBody" [("body", .list members)]

/-- Reads the superclass and the body of a class after its name. -/
def classRest (grammar : Rules) (start : Point) (kind : String) (id : Tree)
    (outer : Context) : Parse Tree := do
  let superClass ← if ← seesWord "extends" then do
    let _ ← nextToken
    -- A superclass is a chain of calls and members, no other operator.
    isolated (grammar .callChain)
  else pure .null
  let body ← classBody grammar
  -- Code is strict from the word `class` on to the end of the body.
  setContext fun c => { c with isStrict := outer.isStrict }
  finish start kind [("id", id), ("superClass", superClass), ("body", body)]

/-- Reads a class declaration; after `export default` its name may be left out. -/
def classDeclaration (grammar : Rules) (nameOptional : Bool) : Parse Tree := do
  let start ← startHere
  let outer ← context
  setContext fun c => { c with isStrict := true }
  expectWord "class"
  let id ← if nameOptional && (← ahead).kind != .identifier then pure .null else bindingName ""
  classRest grammar start "ClassDeclaration" id outer

/-- Reads a class expression. -/
def classExpression (grammar : Rules) : Parse Tree := do
  let start ← startHere
  let outer ← context
  setContext fun c => { c with isStrict := true }
  expectWord "class"
  let id ← if (← ahead).kind == .identifier then bindingName "" else pure .null
  classRest grammar start "ClassExpression" id outer

end ModuleLift.Grammar
