import ModuleLift.Tree.Basic

/-! Tokens, and the words JavaScript keeps for itself. -/

namespace ModuleLift.Grammar

/-- The classes of tokens. -/
inductive TokenKind where
  | boolean
  | eof
  | identifier
  | keyword
  | null
  | number
  | punctuator
  | string
  | template
  | regularExpression
deriving DecidableEq, Repr, Inhabited

/-- A token: what it stands for, and where it stands. -/
structure Token where
  kind : TokenKind
  /-- The name, word, punctuator, number, string or raw template text it stands for. -/
  value : Text
  /-- The text as written. -/
  raw : Text
  region : Region
  /-- Where it starts. -/
  position : Position
  /-- The line on which it ends. -/
  lastLine : Nat
  /-- Whether a number or string is written with an octal form. -/
  octal : Bool := false
  /-- Whether a template piece opens its template. -/
  head : Bool := false
  /-- Whether a template piece closes its template. -/
  tail : Bool := false
  /-- The body of a regular expression. -/
  pattern : Text := ""
  /-- The flags of a regular expression. -/
  flags : Text := ""
deriving DecidableEq, Repr, Inhabited

/-- Words that are never identifiers. -/
def isKeyword (word : Text) : Bool :=
  word.isOneOf ["if", "in", "do", "var", "for", "new", "try", "let", "this", "else", "case",
    "void", "with", "enum", "while", "break", "catch", "throw", "const", "yield", "class",
    "super", "return", "typeof", "delete", "switch", "export", "import", "default", "finally",
    "extends", "function", "continue", "debugger", "instanceof"]

/-- Keywords without a meaning of their own at this place. -/
def isFutureReserved (word : Text) : Bool :=
  word.isOneOf ["enum", "export", "import", "super"]

/-- Words reserved in strict code only. -/
def isStrictReserved (word : Text) : Bool :=
  word.isOneOf ["implements", "interface", "package", "private", "protected", "public", "static",
    "yield", "let"]

/-- Names that strict code may not bind or assign. -/
def isRestricted (word : Text) : Bool := word.isOneOf ["eval", "arguments"]

namespace Token

/-- Whether the token is this punctuator. -/
def isPunctuator (t : Token) (text : Text) : Bool :=
  t.kind == .punctuator && t.value == text

/-- Whether the token is this keyword. -/
def isWord (t : Token) (word : Text) : Bool :=
  t.kind == .keyword && t.value == word

/-- Whether the token is this word, where it is an identifier. -/
def isContextual (t : Token) (word : Text) : Bool :=
  t.kind == .identifier && t.value == word

/-- Whether the token can name a member: any word at all. -/
def isAnyName (t : Token) : Bool :=
  t.kind == .identifier || t.kind == .keyword || t.kind == .boolean || t.kind == .null

/-- Whether the token can start the key of a property. -/
def startsKey (t : Token) : Bool :=
  t.isAnyName || t.kind == .string || t.kind == .number || t.isPunctuator "["

/-- Whether the token can start the operand of `yield`. -/
def startsOperand (t : Token) : Bool :=
  match t.kind with
  | .punctuator =>
    t.value.isOneOf ["[", "(", "\x7b", "+", "-", "!", "~", "++", "--", "/", "/="]
  | .keyword =>
    t.value.isOneOf ["class", "delete", "function", "let", "new", "super", "this", "typeof", "void",
      "yield"]
  | _ => true

end Token

end ModuleLift.Grammar
