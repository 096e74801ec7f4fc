import ModuleLift.Text.Letter

/-! Trees of program text: nodes with a kind, ordered fields, and a mark that ties them to the
text. -/

namespace ModuleLift

/-- A stretch of text: the letters from `start` up to, not including, `stop`. -/
structure Region where
  start : Nat
  stop : Nat
deriving DecidableEq, Repr, Inhabited

/-- A line, counted from one, and a column, counted from zero. -/
structure Position where
  line : Nat
  column : Nat
deriving DecidableEq, Repr, Inhabited

/-- Where something starts, as far as it is known. -/
structure Spot where
  line : Option Nat := none
  column : Option Nat := none
deriving DecidableEq, Repr, Inhabited

/-- A position as a spot. -/
def Position.spot (p : Position) : Spot := { line := some p.line, column := some p.column }

/-- How a node is tied to the text, and what was added to it. -/
structure Mark where
  /-- The text the node was read from; a synthesized node has none. -/
  range : Option Region := none
  /-- The text a synthesized statement stands for. -/
  span : Option Region := none
  /-- Where the node starts, for messages. -/
  spot : Spot := {}
  /-- Comments to write before the node. -/
  comments : List Text := []
  /-- Whether something below the node gained a comment. -/
  modified : Bool := false
deriving DecidableEq, Repr, Inhabited

/-- The mark with one more comment, unless it has that comment already. -/
def Mark.addComment (mark : Mark) (text : Text) : Mark :=
  if mark.comments.contains text then mark
  else { mark with comments := mark.comments ++ [text] }

/-- A decimal number: `mantissa` divided by ten to the power `scale`. -/
structure Numeral where
  mantissa : Int
  scale : Nat
deriving DecidableEq, Repr, Inhabited

/-- A node of a program, or a value one of its fields holds. -/
inductive Tree where
  | null
  | flag (value : Bool)
  | number (value : Numeral)
  | text (value : Text)
  | list (items : List Tree)
  | node (kind : Option String) (mark : Mark) (fields : List (String × Tree))
deriving Inhabited

namespace Tree

/-- The kind of a node; a value that is no node has none. -/
def kind? : Tree → Option String
  | .node kind _ _ => kind
  | _ => none

/-- The mark of a node; a value that is no node has the empty one. -/
def mark : Tree → Mark
  | .node _ mark _ => mark
  | _ => {}

/-- The fields of a node in order. -/
def fields : Tree → List (String × Tree)
  | .node _ _ fields => fields
  | _ => []

/-- The value of a field; an absent field reads as null. -/
def get (t : Tree) (key : String) : Tree :=
  (t.fields.lookup key).getD .null

/-- The elements of a list; any other value has none. -/
def items : Tree → List Tree
  | .list items => items
  | _ => []

/-- The text of a text value. -/
def text? : Tree → Option Text
  | .text value => some value
  | _ => none

/-- Whether the value is this text. -/
def isText (t : Tree) (value : Text) : Bool := t.text? == some value

/-- The text of a text value, empty for any other. -/
def textD (t : Tree) : Text := t.text?.getD []

/-- Whether the value is a node. -/
def isNode : Tree → Bool
  | .node .. => true
  | _ => false

/-- Whether the value is null. -/
def isNull : Tree → Bool
  | .null => true
  | _ => false

/-- Whether a value counts as set: not null, false, zero or empty. -/
def isSet : Tree → Bool
  | .null => false
  | .flag value => value
  | .number value => value.mantissa != 0
  | .text value => !value.isEmpty
  | .list items => !items.isEmpty
  | .node kind mark fields => kind.isSome || !fields.isEmpty || mark != {}

/-- Whether the value is a node of the given kind. -/
def isA (t : Tree) (kind : String) : Bool := t.kind? == some kind

/-- Whether the value is an identifier. -/
def isIdentifier (t : Tree) : Bool := t.isA "Identifier"

/-- Whether the value is the identifier with this name. -/
def isNamed (t : Tree) (name : Text) : Bool :=
  t.isIdentifier && (t.get "name").isText name

/-- The name of an identifier. -/
def name (t : Tree) : Text := (t.get "name").textD

/-- The value of a string literal; a regular expression is none. -/
def stringValue? (t : Tree) : Option Text :=
  if t.isA "Literal" && (t.get "regex").isNull then (t.get "value").text? else none

/-- The text the node was read from. -/
def range? (t : Tree) : Option Region := t.mark.range

/-- The text a statement stands for: its span if it has one, else its range. -/
def region? (t : Tree) : Option Region := t.mark.span <|> t.mark.range

/-- The node with another mark. -/
def mapMark (t : Tree) (change : Mark → Mark) : Tree :=
  match t with
  | .node kind mark fields => .node kind (change mark) fields
  | other => other

/-- The node with a field's value changed; an absent field stays absent. -/
def mapField (t : Tree) (key : String) (change : Tree → Tree) : Tree :=
  match t with
  | .node kind mark fields =>
    .node kind mark (fields.map fun (k, v) => if k == key then (k, change v) else (k, v))
  | other => other

end Tree

end ModuleLift
