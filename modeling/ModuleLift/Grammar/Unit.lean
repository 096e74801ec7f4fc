import ModuleLift.Grammar.Statement
import ModuleLift.Text.Shown

/-! Whole program units: imports, exports, and reading a text as a module or a script. -/

namespace ModuleLift.Grammar

open Parse

/-- Reads the text that names a module. -/
def moduleSpecifier : Parse Tree := do
  let start ← startHere
  if (← ahead).kind != .string then refuse .misplacedForm
  let token ← nextToken
  finishLiteral start token

/-- Reads the word `from`. -/
def fromWord : Parse Unit := do
  if ← seesContextual "from" then
    let _ ← nextToken
  else
    let token ← ahead
    -- The end, an empty text and the number zero are not worth naming.
    if token.value == "" || (token.kind == .number && token.value == "0") then
      refuse .misplacedForm
    else refuse (.token token.value)

/-- Reads an entry of an import list. -/
def importSpecifier : Parse Tree := do
  let start ← startHere
  let isName := (← ahead).kind == .identifier
  let imported ← if isName then bindingName "" else identifierName
  -- A keyword can be imported, but only under another name.
  let bound ← if ← seesContextual "as" then do
    let _ ← nextToken
    bindingName ""
  else if isName then pure imported
  else unexpectedNext
  finish start "ImportSpecifier" [("local", bound), ("imported", imported)]

/-- Reads entries in braces. -/
def inBraces (entry : Parse Tree) : Parse (List Tree) := do
  expect "\x7b"
  let entries ← loop ([] : List Tree) fun read => do
    if ← sees "\x7d" then return .inr read
    let one ← entry
    unless ← sees "\x7d" do expect ","
    return .inl (read ++ [one])
  expect "\x7d"
  return entries

/-- Reads `* as name`. -/
def namespaceSpecifier : Parse Tree := do
  let start ← startHere
  expect "*"
  unless ← seesContextual "as" do refuse .misplacedForm
  let _ ← nextToken
  let bound ← identifierName
  finish start "ImportNamespaceSpecifier" [("local", bound)]

/-- Reads the names an import declares. -/
def importNames : Parse (List Tree) := do
  if ← sees "\x7b" then inBraces importSpecifier
  else if ← sees "*" then return [← namespaceSpecifier]
  else if (← ahead).isAnyName && !(← seesWord "default") then
    let start ← startHere
    let bound ← identifierName
    let first ← finish start "ImportDefaultSpecifier" [("local", bound)]
    -- Beside the default there may be one more clause.
    if ← sees "," then
      let _ ← nextToken
      if ← sees "*" then return [first, ← namespaceSpecifier]
      else if ← sees "\x7b" then return first :: (← inBraces importSpecifier)
      else unexpectedAhead
    else return [first]
  else unexpectedNext

/-- Reads an import. -/
def importDeclaration : Parse Tree := do
  if (← context).inFunctionBody then refuse .misplacedForm
  let start ← startHere
  expectWord "import"
  let specifiers ← if (← ahead).kind == .string then pure [] else do
    let names ← importNames
    fromWord
    pure names
  let source ← moduleSpecifier
  endStatement
  finish start "ImportDeclaration" [("specifiers", .list specifiers), ("source", source)]

/-- Reads an entry of an export list. -/
def exportSpecifier : Parse Tree := do
  let start ← startHere
  let bound ← identifierName
  let exported ← if ← seesContextual "as" then do
    let _ ← nextToken
    identifierName
  else pure bound
  finish start "ExportSpecifier" [("exported", exported), ("local", bound)]

/-- Reads what `export default` exports. -/
def defaultExport (grammar : Rules) : Parse Tree := do
  if ← seesWord "function" then functionDeclaration grammar true
  else if ← seesWord "class" then classDeclaration grammar true
  else if ← seesContextual "async" then
    if ← seesAsyncFunction then functionDeclaration grammar true else grammar .assignment
  else
    if ← seesContextual "from" then refuse (.token (← ahead).value)
    let value ← if ← sees "\x7b" then objectLiteral grammar
      else if ← sees "[" then arrayLiteral grammar
      else grammar .assignment
    -- A declaration ends by itself, an expression has to be ended.
    endStatement
    return value

/-- An export of a declaration or of names. -/
def finishExport (start : Point) (declaration : Tree) (specifiers : List Tree) (source : Tree) :
    Parse Tree :=
  finish start "ExportNamedDeclaration"
    [("declaration", declaration), ("specifiers", .list specifiers), ("source", source)]

/-- Reads an export list in braces; also whether it names the keyword `default`. -/
def exportEntries : Parse (List Tree × Bool) := do
  expect "\x7b"
  let entries ← loop (([] : List Tree), false) fun (read, hasDefault) => do
    if ← sees "\x7d" then return .inr (read, hasDefault)
    let hasDefault := hasDefault || (← seesWord "default")
    let one ← exportSpecifier
    unless ← sees "\x7d" do expect ","
    return .inl (read ++ [one], hasDefault)
  expect "\x7d"
  return entries

/-- Reads the names an export passes on: one by itself, a list, or the one before the list. -/
def exportNames : Parse (List Tree × Bool) := do
  if (← ahead).kind != .identifier then return ← exportEntries
  let start ← startHere
  let bound ← identifierName
  let first ← finish start "ExportDefaultSpecifier" [("local", bound)]
  -- After a comma only a list can come.
  unless ← sees "," do return ([first], false)
  let _ ← nextToken
  let (entries, hasDefault) ← exportEntries
  return (first :: entries, hasDefault)

/-- Reads exported names with the module they may come from. -/
def exportList (start : Point) : Parse Tree := do
  let (specifiers, hasDefault) ← exportNames
  -- The keyword `default` is no name of this module, so it has to come from another.
  if (← seesContextual "from") || hasDefault then
    fromWord
    let source ← moduleSpecifier
    endStatement
    finishExport start .null specifiers source
  else
    endStatement
    finishExport start .null specifiers .null

/-- Reads an export. -/
def exportDeclaration (grammar : Rules) : Parse Tree := do
  if (← context).inFunctionBody then refuse .misplacedForm
  let start ← startHere
  expectWord "export"
  let token ← ahead
  if token.isWord "default" then
    let _ ← nextToken
    let declaration ← defaultExport grammar
    finish start "ExportDefaultDeclaration" [("declaration", declaration)]
  else if token.isPunctuator "*" then
    let _ ← nextToken
    fromWord
    let source ← moduleSpecifier
    endStatement
    finish start "ExportAllDeclaration" [("source", source)]
  else if token.kind == .keyword then
    let declaration ←
      if token.value == "let" || token.value == "const" then lexicalDeclaration grammar
      else if token.value.isOneOf ["var", "class", "function"] then grammar .item
      else unexpectedAhead
    finishExport start declaration [] .null
  else if ← seesAsyncFunction then
    finishExport start (← functionDeclaration grammar false) [] .null
  else exportList start

/-- Reads a statement or declaration. -/
def item (grammar : Rules) : Parse Tree := do
  -- What was read before has no bearing on the next statement.
  setTargets true true
  let token ← ahead
  if token.kind != .keyword then return ← grammar .statement
  match token.value.string? with
  | some "export" =>
    unless (← context).isModule do tolerateAt token .misplacedForm
    exportDeclaration grammar
  | some "import" =>
    if ← seesImportCall then expressionStatement grammar
    else
      unless (← context).isModule do tolerateAt token .misplacedForm
      importDeclaration
  | some "const" => lexicalDeclaration grammar
  | some "function" => functionDeclaration grammar false
  | some "class" => classDeclaration grammar false
  | some "let" => if ← letDeclares then lexicalDeclaration grammar else grammar .statement
  | _ => grammar .statement

/-- The grammar, with its recursion bounded by the number of nested parts. -/
def grammarTo : Nat → Rules
  | 0, _, _ => throw { complaint := .tooDeep, line := 0, column := 0 }
  | depth + 1, _, .assignment => assignmentExpression (grammarTo depth)
  | depth + 1, _, .exponent => exponentExpression (grammarTo depth)
  | depth + 1, _, .unary => unaryExpression (grammarTo depth)
  | depth + 1, _, .callee => memberChain (grammarTo depth)
  | depth + 1, _, .callChain => callChain (grammarTo depth)
  | depth + 1, _, .statement => statement (grammarTo depth)
  | depth + 1, _, .item => item (grammarTo depth)
  | depth + 1, _, .pattern kind => bindingPattern (grammarTo depth) kind

/-- The goal a text is read for. -/
inductive Goal where
  | module
  | script
deriving DecidableEq, Repr, Inhabited

/-- The name of a goal. -/
def Goal.name : Goal → String
  | .module => "module"
  | .script => "script"

/-- The goal with a name, or the words in which the name is refused. -/
def Goal.ofName (name : String) : Except Text Goal :=
  if name = Goal.module.name then .ok .module
  else if name = Goal.script.name then .ok .script
  else .error ("Unknown source type: " ++ Text.shown name)

/-- A text that was read: its tree and the early errors that were let pass. -/
structure Reading where
  tree : Tree
  faults : List Fault

/-- Cuts the first token of a text, before the goal plays a part. -/
def begin (text : Text) (lenient : Bool) : Except Fault ParseState := do
  let cursor := Cursor.start text
  let scanner : Scanner := { cursor, lenient, size := text.length }
  let nothing : Token := {
    kind := .eof, value := "", raw := "", region := ⟨0, 0⟩, position := cursor.position
    lastLine := cursor.line }
  let state : ParseState := {
    scanner, lookahead := nothing, lookaheadAt := cursor, lineBreak := false
    last := { offset := 0, position := cursor.position }, context := {} }
  let (_, state) ← (refill nothing.lastLine).run state
  -- Until something is read, the last token read counts as the first one.
  let reached := state.scanner.cursor
  return { state with last := { offset := reached.offset, position := reached.position } }

/-- Reads a whole text. -/
def program (grammar : Rules) (goal : Goal) : Parse Tree := do
  if goal = .module then
    setContext fun c => { c with isStrict := true, isModule := true }
    modify fun s => { s with scanner := { s.scanner with isModule := true } }
  let start ← startHere
  let first ← directives grammar
  let rest ← manyUntil seesEnd (grammar .item)
  finish start "Program" [("sourceType", .text goal.name), ("body", .list (first ++ rest))]

/-- Reads a text as a module or a script. Lenient reading goes on past early errors. -/
def read (goal : Goal) (lenient : Bool) (text : Text) : Except Fault Reading := do
  let state ← begin text lenient
  -- Each token opens only a few nested parts, so this depth is never reached.
  let depth := 8 * (state.scanner.size + 4)
  let grammar : Rules := fun phrase => grammarTo depth phrase
  let (tree, state) ← (program grammar goal).run state
  return { tree, faults := state.scanner.faults.reverse }

end ModuleLift.Grammar
