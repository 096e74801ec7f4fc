import ModuleLift.Decimal.Shortest
import ModuleLift.Grammar.Cursor
import ModuleLift.Grammar.Token

/-! Cutting a program text into tokens. -/

namespace ModuleLift.Grammar

open ModuleLift.Text

/-- The state of cutting a text into tokens. -/
structure Scanner where
  cursor : Cursor
  /-- The open braces, innermost first; `true` marks one that opens a hole in a template. -/
  braces : List Bool := []
  /-- Whether the text is known to be a module, which has no markup comments. -/
  isModule : Bool := false
  /-- Whether to record early errors and go on instead of stopping. -/
  lenient : Bool
  /-- The recorded errors, latest first. -/
  faults : List Fault := []
  /-- The length of the whole text, a bound for every loop. -/
  size : Nat
deriving Inhabited

/-- A step of cutting a text into tokens. -/
abbrev Scan := StateT Scanner (Except Fault)

namespace Scan

/-- The current place. -/
def here : Scan Cursor := do return (← get).cursor

/-- Goes on from another place. -/
def goTo (cursor : Cursor) : Scan Unit := modify fun s => { s with cursor }

/-- The next letter. -/
def peek : Scan Letter := do return (← here).peek

/-- Passes over `n` letters of the line. -/
def skip (n : Nat) : Scan Unit := do goTo ((← here).advance n)

/-- Reads one letter. -/
def next : Scan Letter := do
  let cursor ← here
  goTo (cursor.advance 1)
  return cursor.peek

/-- Takes note of a line end that has just been read. -/
def endLine (ended : Letter) : Scan Unit := do goTo ((← here).afterLineEnd ended)

/-- Refuses the text at the current place. -/
def refuse {α : Type} (complaint : Complaint) : Scan α := do
  throw ((← here).fault complaint)

/-- Records a fault where reading is lenient, stops at it otherwise. -/
def tolerate (fault : Fault) : Scan Unit := do
  if (← get).lenient then modify fun s => { s with faults := fault :: s.faults }
  else throw fault

/-- Complains about the current place, going on where reading is lenient. -/
def complain (complaint : Complaint) : Scan Unit := do
  tolerate ((← here).fault complaint)

/-- Repeats a step until it gives an answer. -/
def loop {σ α : Type} (state : σ) (step : σ → Scan (σ ⊕ α)) : Scan α := do
  repeatBounded ((← get).size + 2) state step

/-- Reads letters of a class. -/
def takeWhile (test : Letter → Bool) : Scan Text := do
  let cursor ← here
  let taken := cursor.rest.takeWhile test
  goTo (cursor.advance taken.length)
  return taken

/-- The text from a place to the current one. -/
def textFrom (start : Cursor) : Scan Text := do
  return start.rest.take ((← here).offset - start.offset)

/-- The number that digits write in a base. -/
def numberOf (base : Nat) (digits : Text) : Nat :=
  digits.foldl (fun value c => value * base + (hexDigit? c).getD 0) 0

/-- Reads up to `count` hexadecimal digits; with fewer there is no value. -/
def hexDigits (count : Nat) (value : Nat) : Scan (Option Nat) := do
  match count with
  | 0 => return some value
  | count + 1 =>
    match hexDigit? (← peek) with
    | some digit => skip 1; hexDigits count (value * 16 + digit)
    | none => return none

/-- Reads the rest of an escape `\u{...}` after its brace. -/
def codePoint : Scan Nat := do
  if (← peek) = '}' then refuse .illegalText
  let digits ← takeWhile fun c => (hexDigit? c).isSome
  let value := numberOf 16 digits
  -- The character after the digits is read whatever it is, unless the text ends here.
  let close ← if (← here).atEnd then pure none else some <$> next
  if value > 0x10ffff || close != some (.char '}') then refuse .illegalText
  return value

/-- Reads an escaped character of a word after its backslash. -/
def wordEscape (allowed : Letter → Bool) : Scan Nat := do
  unless (← peek) = 'u' do refuse .illegalText
  skip 1
  if (← peek) = '{' then
    skip 1
    codePoint
  else
    -- Only four digits are checked against the class; braces admit any code point.
    match ← hexDigits 4 0 with
    | some value =>
      if value = '\\'.toNat || !allowed (.ofCode value) then refuse .illegalText
      return value
    | none => refuse .illegalText

/-- Reads a word with its escapes resolved. -/
def word : Scan Text := do
  let first ← next
  let unit ← if first = '\\' then wordEscape startsWord else pure first.code
  let units ← loop [unit] fun units => do
    -- Escaped letters stand between stretches of plain ones.
    let plain ← takeWhile fun c => c ≠ '\\' && continuesWord c
    let units := (plain.map Letter.code).reverse ++ units
    if (← peek) = '\\' then
      skip 1
      let unit ← wordEscape continuesWord
      return .inl (unit :: units)
    else return .inr units
  return units.reverse.map Letter.ofCode

/-- The token that ends here and started at `start`. -/
def token (start : Cursor) (kind : TokenKind) (value : Text) : Scan Token := do
  let stop ← here
  return {
    kind, value
    raw := ← textFrom start
    region := { start := start.offset, stop := stop.offset }
    position := start.position
    lastLine := stop.line }

/-- Reads an identifier, keyword, boolean or null. -/
def wordToken : Scan Token := do
  let start ← here
  let name ← word
  let kind : TokenKind :=
    if isKeyword name then .keyword
    else if name = "null" then .null
    else if name = "true" || name = "false" then .boolean
    else .identifier
  let stop ← here
  -- A keyword that is shorter than its text was written with an escape.
  if kind != .identifier && start.offset + name.length ≠ stop.offset then
    tolerate (start.fault .badEscapedKeyword)
  token start kind name

/-- The punctuators of more than one character, longest first. -/
def longPunctuators : List Text :=
  [">>>=", "...", "===", "!==", ">>>", "<<=", ">>=", "**=", "&&", "||", "==", "!=", "+=", "-=",
    "*=", "/=", "++", "--", "<<", ">>", "&=", "|=", "^=", "%=", "<=", ">=", "=>", "**"]

/-- The punctuators of one character. -/
def shortPunctuators : Text := "(){};,[]:?~.<>=!+-*%&|^/"

/-- Reads a punctuator and keeps count of braces. -/
def punctuatorToken : Scan Token := do
  let start ← here
  -- The longest punctuator that fits is the one meant.
  let found := longPunctuators.find? fun p => Text.startsWith p start.rest
  match found with
  | some text =>
    skip text.length
    token start .punctuator text
  | none =>
    let c := start.peek
    unless shortPunctuators.contains c && !start.atEnd do refuse .illegalText
    -- An open brace of a template hole has to be told from one of a block.
    if c = '{' then modify fun s => { s with braces := false :: s.braces }
    if c = '}' then modify fun s => { s with braces := s.braces.drop 1 }
    skip 1
    token start .punctuator [c]

/-- The number token that ends here; no word may follow it directly. -/
def numberToken (start : Cursor) (value : Text) (octal : Bool) (noDigit : Bool) : Scan Token := do
  let c ← peek
  if startsWord c || (noDigit && c.isDigit) then refuse .illegalText
  let number ← token start .number value
  return { number with octal }

/-- Reads the digits of a number in base 2, 8 or 16 after its mark. -/
def radixNumber (start : Cursor) (base : Nat) (test : Letter → Bool) (noDigit : Bool) :
    Scan Token := do
  let digits ← takeWhile test
  if digits.isEmpty then refuse .illegalText
  numberToken start (Text.ofNat (numberOf base digits)) false noDigit

/-- Whether the digits after a leading zero make an octal number: none of them is 8 or 9. -/
def impliesOctal : Text → Bool
  | [] => true
  | c :: rest =>
    if c = '8' || c = '9' then false
    else if isOctalDigit c then impliesOctal rest
    else true

/-- Reads the exponent of a decimal number, if it has one. -/
def decimalExponent : Scan Int := do
  unless (← peek) = 'e' || (← peek) = 'E' do return 0
  skip 1
  let sign ← peek
  if sign = '+' || sign = '-' then skip 1
  let digits ← takeWhile Letter.isDigit
  if digits.isEmpty then refuse .illegalText
  return if sign = '-' then -(numberOf 10 digits : Int) else numberOf 10 digits

/-- Reads a decimal number: digits, a fraction and an exponent. -/
def decimalNumber : Scan Decimal := do
  let whole ← takeWhile Letter.isDigit
  let fraction ← if (← peek) = '.' then do skip 1; takeWhile Letter.isDigit else pure []
  let exponent ← decimalExponent
  return { digits := numberOf 10 (whole ++ fraction), exponent := exponent - fraction.length }

/-- Reads a number. -/
def numericToken : Scan Token := do
  let start ← here
  if start.peek = '0' then
    let mark := start.peekAt 1
    if mark = 'x' || mark = 'X' then
      skip 2
      return ← radixNumber start 16 (fun c => (hexDigit? c).isSome) false
    if mark = 'b' || mark = 'B' then
      skip 2
      return ← radixNumber start 2 (fun c => c = '0' || c = '1') true
    if mark = 'o' || mark = 'O' then
      skip 2
      return ← radixNumber start 8 isOctalDigit true
    -- A leading zero makes the number octal unless an 8 or a 9 follows.
    if isOctalDigit mark && impliesOctal (start.rest.drop 2) then
      let digits ← takeWhile isOctalDigit
      return ← numberToken start (Text.ofNat (numberOf 8 digits)) true true
  let value ← decimalNumber
  numberToken start value.nearest.text false false

/-- Reads an octal escape whose first digit is `first`; also whether the form is an old one. -/
def octalEscape (first : Letter) : Scan (Nat × Bool) := do
  let digit (c : Letter) : Nat := (hexDigit? c).getD 0
  let second ← peek
  if isOctalDigit second then
    skip 1
    let third ← peek
    -- Three digits are read only as long as the value stays below 256.
    if first.isIn fun c => '0' ≤ c && c ≤ '3' && isOctalDigit third then
      skip 1
      return ((digit first * 8 + digit second) * 8 + digit third, true)
    return (digit first * 8 + digit second, true)
  -- A zero alone is the NUL character and no octal form.
  return (digit first, first ≠ '0')

/-- The characters a simple escape stands for. -/
def simpleEscape? : Letter → Option Nat
  | .char 'n' => some 0x0a
  | .char 'r' => some 0x0d
  | .char 't' => some 0x09
  | .char 'b' => some 0x08
  | .char 'f' => some 0x0c
  | .char 'v' => some 0x0b
  | _ => none

/-- Reads an escape in a string after its backslash: the units it stands for, and whether its
form is octal. -/
def stringEscape : Scan (List Nat × Bool) := do
  let c ← next
  -- A line end after a backslash stands for nothing.
  if isLineEnd c then
    endLine c
    return ([], false)
  if c = 'u' then
    if (← peek) = '{' then
      skip 1
      return ([← codePoint], false)
    match ← hexDigits 4 0 with
    | some value => return ([value], false)
    | none => refuse .illegalText
  if c = 'x' then
    match ← hexDigits 2 0 with
    | some value => return ([value], false)
    | none => refuse .badHexEscape
  if let some value := simpleEscape? c then return ([value], false)
  -- These two digits are no octal ones, and lenient reading takes them as they are.
  if c = '8' || c = '9' then
    complain .illegalText
    return ([c.code], false)
  if isOctalDigit c then
    let (value, octal) ← octalEscape c
    return ([value], octal)
  return ([c.code], false)

/-- Refuses a string that is not closed: at its opening quote, counted on the line reached. -/
def refuseString {α : Type} (start : Cursor) : Scan α := do
  let reached ← here
  throw {
    complaint := .illegalText
    line := reached.line
    column := (start.offset : Int) - reached.lineStart + 1 }

/-- Reads a string. -/
def stringToken : Scan Token := do
  let start ← here
  let quote ← next
  let (units, octal) ← loop (([] : List Nat), false) fun (units, octal) => do
    -- A stretch without escapes is taken in one go.
    let plain ← takeWhile fun c => c ≠ quote && c ≠ '\\' && !isLineEnd c
    let units := (plain.map Letter.code).reverse ++ units
    if (← here).atEnd then refuseString start
    let c ← next
    if c = quote then return .inr (units, octal)
    if c = '\\' then
      let (more, old) ← stringEscape
      return .inl (more ++ units, octal || old)
    -- Only a line end is left, and it may not stand in a string.
    refuseString start
  let string ← token start .string (units.reverse.map Letter.ofCode)
  return { string with octal }

/-- Checks an escape in a template after its backslash. -/
def templateEscape : Scan Unit := do
  let c ← next
  if isLineEnd c then endLine c
  else if c = 'u' then
    if (← peek) = '{' then
      skip 1
      let _ ← codePoint
    else
      -- An escape with too few digits is let pass as it is.
      let restore ← here
      if (← hexDigits 4 0).isNone then goTo restore
  else if c = 'x' then
    if (← hexDigits 2 0).isNone then refuse .badHexEscape
  else if c = '0' then
    if (← peek).isDigit then refuse .octalInTemplate
  else if isOctalDigit c then refuse .octalInTemplate

/-- Reads a piece of a template, from its opening quote or closing brace to the next hole or the
closing quote. -/
def templateToken : Scan Token := do
  let start ← here
  let head := start.peek = '`'
  skip 1
  let tail ← loop () fun () => do
    if (← here).atEnd then refuse .illegalText
    let c ← next
    if c = '`' then return .inr true
    if c = '$' && (← peek) = '{' then
      skip 1
      modify fun s => { s with braces := true :: s.braces }
      return .inr false
    if c = '\\' then templateEscape
    else if isLineEnd c then endLine c
    return .inl ()
  -- The hole before this piece is closed.
  unless head do modify fun s => { s with braces := s.braces.drop 1 }
  let piece ← token start .template ""
  -- A closing quote is one character, the start of a hole two.
  let close := if tail then 1 else 2
  return { piece with
    value := (piece.raw.drop 1).take (piece.raw.length - 1 - close), head, tail }

/-- Reads the body of a regular expression between its slashes. -/
def regularExpressionBody : Scan Text := do
  let start ← here
  skip 1
  loop false fun inClass => do
    if (← here).atEnd then refuse .openRegularExpression
    let c ← next
    if c = '\\' then
      let escaped ← next
      if isLineEnd escaped then refuse .openRegularExpression
      return .inl inClass
    if isLineEnd c then refuse .openRegularExpression
    -- Inside brackets a slash does not close the expression.
    if inClass then return .inl (c ≠ ']')
    if c = '/' then
      let text ← textFrom start
      return .inr (text.drop 1).dropLast
    return .inl (c = '[')

/-- Reads the flags of a regular expression; escapes in them are faults. -/
def regularExpressionFlags : Scan Text := do
  let flags ← loop ([] : Text) fun flags => do
    let c ← peek
    if (← here).atEnd || !continuesWord c then return .inr flags
    skip 1
    -- Each escape among the flags is a fault, whatever it stands for.
    if c = '\\' && !(← here).atEnd then
      if (← peek) = 'u' then
        skip 1
        let restore ← here
        match ← hexDigits 4 0 with
        | some value =>
          complain .illegalText
          return .inl (.ofCode value :: flags)
        | none =>
          goTo restore
          complain .illegalText
          return .inl (.char 'u' :: flags)
      complain .illegalText
      return .inl flags
    return .inl (c :: flags)
  return flags.reverse

/-- Reads a regular expression. -/
def regularExpressionToken : Scan Token := do
  let start ← here
  let pattern ← regularExpressionBody
  let flags ← regularExpressionFlags
  let expression ← token start .regularExpression ""
  return { expression with pattern, flags }

/-- Skips blanks and comments. -/
def gap : Scan Unit := do
  let gapEnd := (← here).skipGap !(← get).isModule
  goTo gapEnd.cursor
  if gapEnd.leftOpen then complain .illegalText

/-- Reads the next token. -/
def anyToken : Scan Token := do
  let start ← here
  let c := start.peek
  if start.atEnd then token start .eof ""
  else if startsWord c then wordToken
  else if c = '\'' || c = '"' then stringToken
  -- A dot before a digit starts a number and no member.
  else if c.isDigit || (c = '.' && (start.peekAt 1).isDigit) then numericToken
  -- A brace that closes a hole goes on with the template.
  else if c = '`' || (c = '}' && (← get).braces.head? == some true) then templateToken
  else punctuatorToken

/-- The token after the current place. Looking leaves the place as it is; the braces stay as the
token left them. -/
def lookAhead : Scan Token := do
  let restore ← here
  gap
  let token ← anyToken
  goTo restore
  return token

end Scan

end ModuleLift.Grammar
