import ModuleLift.Text.Hex
import ModuleLift.Tree.Basic

/-! Values written as JSON in ASCII: everything outside the printable range is an escape. -/

namespace ModuleLift.Text

/-- The escape of one 16-bit unit. -/
def unitEscape (n : Nat) : Text := "\\u" ++ hexPadded 4 n

/-- A letter of a string; above the basic plane it takes two units. -/
def asciiLetter (l : Letter) : Text :=
  if l = '"' then "\\\""
  else if l = '\\' then "\\\\"
  else if l = '\n' then "\\n"
  else if l = '\r' then "\\r"
  else if l = '\t' then "\\t"
  else if l.code = 0x0c then "\\f"
  else if l.code = 0x08 then "\\b"
  else if 0x20 ≤ l.code && l.code < 0x7f then [l]
  else if l.code < 0x10000 then unitEscape l.code
  else
    -- Past the basic plane a character is written as two halves.
    let rest := l.code - 0x10000
    unitEscape (0xd800 + rest / 0x400) ++ unitEscape (0xdc00 + rest % 0x400)

/-- A string between double quotes. -/
def asciiString (text : Text) : Text := "\"" ++ text.flatMap asciiLetter ++ "\""

/-- A decimal number with as many places as its scale. -/
def decimal (n : Numeral) : Text :=
  let digits := ofNat n.mantissa.natAbs
  let sign : Text := if n.mantissa < 0 then "-" else ""
  if n.scale = 0 then sign ++ digits
  else
    let padded := List.replicate (n.scale + 1 - digits.length) (.char '0') ++ digits
    let whole := padded.length - n.scale
    sign ++ padded.take whole ++ "." ++ padded.drop whole

/-- Two numbers as a list. -/
def regionText (r : Region) : Text := "[" ++ ofNat r.start ++ ", " ++ ofNat r.stop ++ "]"

/-- A named entry of an object. -/
def entryText (key : String) (value : Text) : Text := asciiString key ++ ": " ++ value

/-- Texts with a comma between them. -/
def commaSeparated (texts : List Text) : Text := joined ", " texts

/-- Entries in braces. -/
def objectText (entries : List Text) : Text := "\x7b" ++ commaSeparated entries ++ "\x7d"

/-- A line and a column as the start of a place. -/
def spotText (line column : Nat) : Text :=
  objectText [entryText "start" (objectText [entryText "line" (ofNat line),
    entryText "column" (ofNat column)])]

/-- The entry for a spot that is known. -/
def spotEntry : Spot → List (String × Text)
  | { line := some line, column := some column } => [("loc", spotText line column)]
  | _ => []

/-- Comments as a list of objects. -/
def commentsText (comments : List Text) : Text :=
  "[" ++ commaSeparated (comments.map fun text =>
    objectText [entryText "type" (asciiString "Line"), entryText "value" (asciiString text)]) ++
    "]"

/-- The entries that tell where a node stands and what was added to it, apart from those that it
has as fields already. -/
def markEntries (mark : Mark) (fields : List (String × Tree)) : List Text :=
  let entries : List (String × Text) :=
    (mark.range.map fun r => ("range", regionText r)).toList ++
    (mark.span.map fun r => ("span", regionText r)).toList ++
    spotEntry mark.spot ++
    (if mark.comments.isEmpty then [] else [("leadingComments", commentsText mark.comments)]) ++
    (if mark.modified then [("modified", ofString "true")] else [])
  (entries.filter fun (key, _) => (fields.lookup key).isNone).map fun (key, value) =>
    entryText key value

mutual

/-- A value as JSON. -/
def ascii : Tree → Text
  | .null => "null"
  | .flag true => "true"
  | .flag false => "false"
  | .number value => decimal value
  | .text value => asciiString value
  | .list items => "[" ++ commaSeparated (asciiAll items) ++ "]"
  | .node kind mark fields =>
    let named := (kind.map fun k => entryText "type" (asciiString k)).toList
    objectText (named ++ asciiFields fields ++ markEntries mark fields)

/-- Values as JSON. -/
def asciiAll : List Tree → List Text
  | [] => []
  | t :: rest => ascii t :: asciiAll rest

/-- Fields as JSON entries. -/
def asciiFields : List (String × Tree) → List Text
  | [] => []
  | (key, value) :: rest => entryText key (ascii value) :: asciiFields rest

end

end ModuleLift.Text
