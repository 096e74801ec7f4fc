import ModuleLift.Text.Word
import ModuleLift.Grammar.Fault
import ModuleLift.Tree.Basic

/-! A place in a text being read, and the blanks and comments between tokens. -/

namespace ModuleLift.Grammar

open ModuleLift.Text

/-- A place in a text: what is left to read and how far reading got. -/
structure Cursor where
  rest : Text
  offset : Nat
  line : Nat
  /-- The offset at which the current line starts. -/
  lineStart : Nat
deriving Repr, Inhabited

namespace Cursor

/-- The start of a text; an empty text has no first line. -/
def start (text : Text) : Cursor :=
  { rest := text, offset := 0, line := if text.isEmpty then 0 else 1, lineStart := 0 }

/-- Whether everything has been read. -/
def atEnd (c : Cursor) : Bool := c.rest.isEmpty

/-- The letter `n` places ahead; past the end there are only NULs. -/
def peekAt (c : Cursor) (n : Nat) : Letter := c.rest.getD n (Char.ofNat 0)

/-- The next letter. -/
def peek (c : Cursor) : Letter := c.peekAt 0

/-- The place `n` letters further on the same line. -/
def advance (c : Cursor) (n : Nat) : Cursor :=
  { c with rest := c.rest.drop n, offset := c.offset + n }

/-- The place after a line end that has just been read; a carriage return takes a line feed
along. -/
def afterLineEnd (c : Cursor) (ended : Letter) : Cursor :=
  let next := if ended = '\r' && c.peek = '\n' then c.advance 1 else c
  { next with line := next.line + 1, lineStart := next.offset }

/-- The column of the place, counted from zero. -/
def column (c : Cursor) : Nat := c.offset - c.lineStart

/-- The line and column of the place. -/
def position (c : Cursor) : Position := { line := c.line, column := c.column }

/-- A complaint at this very place. -/
def fault (c : Cursor) (complaint : Complaint) : Fault :=
  { complaint, line := c.line, column := c.column + 1 }

end Cursor

/-- What the text between two tokens is part of. -/
inductive Gap where
  /-- Blanks; `lineStart` says whether only blanks and comments stand before on the line. -/
  | blanks (lineStart : Bool)
  /-- A comment to the end of the line; `lineStart` is what holds after it. -/
  | lineComment (lineStart : Bool)
  /-- A bracketed comment. -/
  | blockComment (lineStart : Bool)

/-- Where a gap between tokens ends, and whether a bracketed comment in it was left open. -/
structure GapEnd where
  cursor : Cursor
  leftOpen : Bool := false

/-- Skips blanks and comments. With `markup` set, `<!--` opens a comment to the end of the line. -/
def skipGap (markup : Bool) : Gap → Text → Nat → Nat → Nat → GapEnd
  -- A bracketed comment that the text ends in was left open.
  | .blockComment _, [], offset, line, lineStart =>
    { cursor := { rest := [], offset, line, lineStart }, leftOpen := true }
  | _, [], offset, line, lineStart => { cursor := { rest := [], offset, line, lineStart } }
  -- A carriage return and a line feed end one line, wherever they stand.
  | .blanks _, .char '\r' :: .char '\n' :: rest, offset, line, _ =>
    skipGap markup (.blanks true) rest (offset + 2) (line + 1) (offset + 2)
  | .lineComment after, .char '\r' :: .char '\n' :: rest, offset, line, _ =>
    skipGap markup (.blanks after) rest (offset + 2) (line + 1) (offset + 2)
  | .blockComment first, .char '\r' :: .char '\n' :: rest, offset, line, _ =>
    skipGap markup (.blockComment first) rest (offset + 2) (line + 1) (offset + 2)
  | .blockComment first, .char '*' :: .char '/' :: rest, offset, line, lineStart =>
    skipGap markup (.blanks first) rest (offset + 2) line lineStart
  | .blanks _, .char '/' :: .char '/' :: rest, offset, line, lineStart =>
    skipGap markup (.lineComment true) rest (offset + 2) line lineStart
  | .blanks first, .char '/' :: .char '*' :: rest, offset, line, lineStart =>
    skipGap markup (.blockComment first) rest (offset + 2) line lineStart
  -- An arrow of markup is a comment only where nothing stands before it on its line.
  | .blanks true, .char '-' :: .char '-' :: .char '>' :: rest, offset, line, lineStart =>
    skipGap markup (.lineComment true) rest (offset + 3) line lineStart
  | .blanks first, .char '<' :: .char '!' :: .char '-' :: .char '-' :: rest, offset, line,
      lineStart =>
    if markup then skipGap markup (.lineComment first) rest (offset + 4) line lineStart
    else { cursor := { rest := "<!--" ++ rest, offset, line, lineStart } }
  -- Any other letter either belongs to the gap or ends it.
  | .blanks first, c :: rest, offset, line, lineStart =>
    if isLineEnd c then skipGap markup (.blanks true) rest (offset + 1) (line + 1) (offset + 1)
    else if isBlank c then skipGap markup (.blanks first) rest (offset + 1) line lineStart
    else { cursor := { rest := c :: rest, offset, line, lineStart } }
  | .lineComment after, c :: rest, offset, line, lineStart =>
    if isLineEnd c then skipGap markup (.blanks after) rest (offset + 1) (line + 1) (offset + 1)
    else skipGap markup (.lineComment after) rest (offset + 1) line lineStart
  | .blockComment first, c :: rest, offset, line, lineStart =>
    if isLineEnd c then
      skipGap markup (.blockComment first) rest (offset + 1) (line + 1) (offset + 1)
    else skipGap markup (.blockComment first) rest (offset + 1) line lineStart

/-- The end of the gap that starts at a place. -/
def Cursor.skipGap (c : Cursor) (markup : Bool) : GapEnd :=
  Grammar.skipGap markup (.blanks (c.offset == 0)) c.rest c.offset c.line c.lineStart

end ModuleLift.Grammar
