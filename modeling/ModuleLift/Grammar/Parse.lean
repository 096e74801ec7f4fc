import ModuleLift.Grammar.Scanner

/-! Reading with one token of lookahead: the state, its elementary steps, and its complaints. -/

namespace ModuleLift.Grammar

/-- What surrounds the place being read, as far as the grammar depends on it. -/
structure Context where
  isModule : Bool := false
  isStrict : Bool := false
  /-- Whether `await` is an operator here. -/
  allowAwait : Bool := false
  /-- Whether `in` is an operator here. -/
  allowIn : Bool := true
  /-- Whether a body read here may make itself strict. -/
  allowStrictDirective : Bool := true
  /-- Whether `yield` is an ordinary name here. -/
  allowYield : Bool := true
  /-- Whether the expression just read can be assigned to. -/
  isAssignmentTarget : Bool := false
  /-- Whether the expression just read can be taken for a parameter. -/
  isBindingElement : Bool := false
  /-- The `=` of a shorthand property with a default, which only a pattern may have. -/
  patternOnly : Option Token := none
  inFunctionBody : Bool := false
  inIteration : Bool := false
  inSwitch : Bool := false
  /-- The labels in force. -/
  labels : List Text := []
deriving Inhabited

/-- An offset with its line and column. -/
structure Point where
  offset : Nat
  position : Position
deriving Inhabited

/-- The state of reading. -/
structure ParseState where
  scanner : Scanner
  /-- The next token, already cut. -/
  lookahead : Token
  /-- The place where the next token starts. -/
  lookaheadAt : Cursor
  /-- Whether the next token ends on another line than the one before it. -/
  lineBreak : Bool
  /-- The end of the last token read. -/
  last : Point
  context : Context
deriving Inhabited

/-- A step of reading. -/
abbrev Parse := StateT ParseState (Except Fault)

namespace Parse

/-- Runs a step of the scanner. -/
def scan {α : Type} (step : Scan α) : Parse α := do
  let state ← get
  let (answer, scanner) ← step.run state.scanner
  set { state with scanner }
  return answer

/-- The next token. -/
def ahead : Parse Token := do return (← get).lookahead

/-- The surroundings. -/
def context : Parse Context := do return (← get).context

/-- Changes the surroundings. -/
def setContext (change : Context → Context) : Parse Unit :=
  modify fun s => { s with context := change s.context }

/-- Whether code here is strict. -/
def isStrict : Parse Bool := do return (← context).isStrict

/-- Whether a line break stands before the next token. -/
def lineBreak : Parse Bool := do return (← get).lineBreak

/-- Whether reading is lenient. -/
def isLenient : Parse Bool := do return (← get).scanner.lenient

/-- Cuts the token after the one being read, which ended on `lastLine`. -/
def refill (lastLine : Nat) : Parse Unit := do
  scan Scan.gap
  let start ← scan Scan.here
  let token ← scan Scan.anyToken
  -- Strict code has more keywords; the token is cut before that is known.
  let reserved := (← isStrict) && token.kind == .identifier && isStrictReserved token.value
  modify fun s => { s with
    lookahead := if reserved then { token with kind := .keyword } else token
    lookaheadAt := start
    lineBreak := lastLine != token.lastLine }

/-- Reads the next token. -/
def nextToken : Parse Token := do
  let token ← ahead
  -- The scanner stands right after the token that is read now.
  modify fun s =>
    let cursor := s.scanner.cursor
    { s with last := { offset := cursor.offset, position := cursor.position } }
  refill token.lastLine
  return token

/-- Reads the next token over again as a regular expression. -/
def nextRegularExpression : Parse Token := do
  let state ← get
  -- The slash was cut as a punctuator, so reading goes back to where it stands.
  scan (Scan.goTo state.lookaheadAt)
  let token ← scan Scan.regularExpressionToken
  modify fun s => { s with lookahead := token }
  nextToken

/-- Records a fault where reading is lenient, stops at it otherwise. -/
def tolerate (fault : Fault) : Parse Unit := scan (Scan.tolerate fault)

/-- What is wrong with meeting a token. -/
def complaintOf (token : Token) : Parse Complaint := do
  match token.kind with
  | .eof => return .endOfInput
  | .identifier => return .identifierHere
  | .number => return .numberHere
  | .string => return .stringHere
  | .template => return .templateHere token.value
  | .keyword =>
    if isFutureReserved token.value then return .reservedWord
    else if (← isStrict) && isStrictReserved token.value then return .strictReserved
    else return .token token.value
  | _ => return .token token.value

/-- A complaint at a token, its column counted on the line on which the last token read ended. -/
def faultAt (token : Token) (complaint : Complaint) : Parse Fault := do
  let last := (← get).last
  return {
    complaint
    line := token.lastLine
    column := (token.region.start : Int) - (last.offset - last.position.column : Nat) + 1 }

/-- A complaint at the end of the last token read. -/
def faultHere (complaint : Complaint) : Parse Fault := do
  let last := (← get).last
  return { complaint, line := last.position.line, column := last.position.column + 1 }

/-- Refuses the text because of a token. -/
def unexpected {α : Type} (token : Token) : Parse α := do
  throw (← faultAt token (← complaintOf token))

/-- Refuses the text because of the next token, without reading it. -/
def unexpectedAhead {α : Type} : Parse α := do unexpected (← ahead)

/-- Refuses the text because of the next token, reading it first. -/
def unexpectedNext {α : Type} : Parse α := do unexpected (← nextToken)

/-- Refuses the text at a token for a given reason. -/
def refuseAt {α : Type} (token : Token) (complaint : Complaint) : Parse α := do
  throw (← faultAt token complaint)

/-- Refuses the text at the end of the last token read. -/
def refuse {α : Type} (complaint : Complaint) : Parse α := do
  throw (← faultHere complaint)

/-- Complains about a token, going on where reading is lenient. -/
def tolerateToken (token : Token) : Parse Unit := do
  tolerate (← faultAt token (← complaintOf token))

/-- Complains at a token for a given reason, going on where reading is lenient. -/
def tolerateAt (token : Token) (complaint : Complaint) : Parse Unit := do
  tolerate (← faultAt token complaint)

/-- Complains at the end of the last token read, naming the line of the next one, and goes on where
reading is lenient. -/
def complain (complaint : Complaint) : Parse Unit := do
  let state ← get
  tolerate {
    complaint
    line := state.scanner.cursor.line
    column := state.last.position.column + 1 }

/-- Whether the next token is this punctuator. -/
def sees (text : Text) : Parse Bool := do return (← ahead).isPunctuator text

/-- Whether the next token is one of these punctuators. -/
def seesAny (texts : List String) : Parse Bool := do
  let token ← ahead
  return token.kind == .punctuator && token.value.isOneOf texts

/-- Whether the next token is this keyword. -/
def seesWord (word : Text) : Parse Bool := do return (← ahead).isWord word

/-- Whether the next token is this word, where it is an identifier. -/
def seesContextual (word : Text) : Parse Bool := do return (← ahead).isContextual word

/-- Whether the text ends here. -/
def seesEnd : Parse Bool := do return (← ahead).kind == .eof

/-- Reads this punctuator. -/
def expect (text : Text) : Parse Unit := do
  let token ← nextToken
  unless token.isPunctuator text do unexpected token

/-- Reads this keyword. -/
def expectWord (word : Text) : Parse Unit := do
  let token ← nextToken
  unless token.isWord word do unexpected token

/-- Reads a comma between entries; lenient reading makes do with a semicolon or nothing. -/
def expectComma : Parse Unit := do
  if ← isLenient then
    let token ← ahead
    if token.isPunctuator "," then
      let _ ← nextToken
    else if token.isPunctuator ";" then
      let _ ← nextToken
      tolerateToken token
    else tolerateAt token (.token token.value)
  else expect ","

/-- Ends a statement: by a semicolon, a line break, a closing brace or the end of the text. Without
a line break the statement reaches up to the next token. -/
def endStatement : Parse Unit := do
  if ← sees ";" then
    let _ ← nextToken
  else if !(← lineBreak) then
    if !(← seesEnd) && !(← sees "\x7d") then unexpectedAhead
    -- The statement takes the blanks before the next token along.
    modify fun s => { s with
      last := { offset := s.lookahead.region.start, position := s.lookahead.position } }

/-- Where a node starting with the next token starts. -/
def startHere : Parse Point := do
  let token ← ahead
  return { offset := token.region.start, position := token.position }

/-- Where a node starting with this token starts. -/
def startAt (token : Token) : Point :=
  { offset := token.region.start, position := token.position }

/-- The node from a start to the end of the last token read; null fields are left out. -/
def finish (start : Point) (kind : String) (fields : List (String × Tree)) : Parse Tree := do
  let last := (← get).last
  let mark : Mark := {
    range := some { start := start.offset, stop := last.offset }
    spot := start.position.spot }
  return .node (some kind) mark (fields.filter fun field => !field.2.isNull)

/-- The identifier from a start to the end of the last token read. -/
def finishName (start : Point) (name : Text) : Parse Tree :=
  finish start "Identifier" [("name", .text name)]

/-- Repeats a step until it gives an answer. -/
def loop {σ α : Type} (state : σ) (step : σ → Parse (σ ⊕ α)) : Parse α := do
  repeatBounded ((← get).scanner.size + 2) state step

/-- Reads parts until a stop is seen. -/
def manyUntil (stop : Parse Bool) (one : Parse Tree) : Parse (List Tree) :=
  loop ([] : List Tree) fun read => do
    -- The latest part comes first while reading goes on.
    if ← stop then return .inr read.reverse
    return .inl ((← one) :: read)

/-- Sets what the expression just read may be used for. -/
def setTargets (assignment binding : Bool) : Parse Unit :=
  setContext fun c => { c with isAssignmentTarget := assignment, isBindingElement := binding }

/-- The expression just read is neither a target nor a parameter. -/
def noTarget : Parse Unit := setTargets false false

/-- Reads an expression on its own: what it may be used for does not show outside, and a form that
only a pattern may have is refused. -/
def isolated {α : Type} (step : Parse α) : Parse α := do
  let outer ← context
  setContext fun c => { c with
    isBindingElement := true, isAssignmentTarget := true, patternOnly := none }
  let answer ← step
  -- Nothing has made a pattern of the expression by now.
  if let some token := (← context).patternOnly then unexpected token
  setContext fun c => { c with
    isBindingElement := outer.isBindingElement
    isAssignmentTarget := outer.isAssignmentTarget
    patternOnly := outer.patternOnly }
  return answer

/-- Reads a part of an expression: the whole may be used only for what the part may be used for. -/
def inherited {α : Type} (step : Parse α) : Parse α := do
  let outer ← context
  setContext fun c => { c with
    isBindingElement := true, isAssignmentTarget := true, patternOnly := none }
  let answer ← step
  setContext fun c => { c with
    isBindingElement := c.isBindingElement && outer.isBindingElement
    isAssignmentTarget := c.isAssignmentTarget && outer.isAssignmentTarget
    patternOnly := outer.patternOnly <|> c.patternOnly }
  return answer

end Parse

/-- The recursive parts of the grammar, with what reading each of them gives. -/
inductive Phrase : Type → Type where
  | assignment : Phrase Tree
  | exponent : Phrase Tree
  | unary : Phrase Tree
  /-- The callee of `new`. -/
  | callee : Phrase Tree
  /-- A chain of calls and members, such as a superclass. -/
  | callChain : Phrase Tree
  | statement : Phrase Tree
  | item : Phrase Tree
  /-- A binding pattern in a declaration of some kind, with the tokens of the names it binds. -/
  | pattern (kind : Text) : Phrase (Tree × List Token)

/-- How to read each recursive part. -/
abbrev Rules := {α : Type} → Phrase α → Parse α

end ModuleLift.Grammar
