import ModuleLift.Text.Hex
import ModuleLift.Text.Unprintable

/-! Text as it is shown in messages: in quotes, with escapes for what cannot be printed. -/

namespace ModuleLift.Text

/-- Whether a letter is written as it is. -/
def isPrintable (l : Letter) : Bool :=
  if l.code < 0x80 then 0x20 ≤ l.code && l.code < 0x7f else !l.isHalf && !unprintable.holds l

/-- One letter of a shown text. -/
def shownLetter (quote : Char) (l : Letter) : Text :=
  if l = quote || l = '\\' then ['\\', l]
  else if l = '\n' then "\\n"
  else if l = '\r' then "\\r"
  else if l = '\t' then "\\t"
  else if isPrintable l then [l]
  else if l.code < 0x100 then "\\x" ++ hexPadded 2 l.code
  else if l.code < 0x10000 then "\\u" ++ hexPadded 4 l.code
  else "\\U" ++ hexPadded 8 l.code

/-- The quote a text is shown in: double only if that saves an escape. -/
def shownQuote (text : Text) : Char :=
  if text.contains '\'' && !text.contains '"' then '"' else '\''

/-- A text in quotes. -/
def shown (text : Text) : Text :=
  let quote := shownQuote text
  quote :: (text.flatMap (shownLetter quote) ++ [.char quote])

/-- A text as it is printed: a half is no character, so its escape takes its place. -/
def printed (text : Text) : String :=
  let escaped : Text := text.flatMap fun l => if l.isHalf then "\\u" ++ hexPadded 4 l.code else [l]
  String.ofList (escaped.filterMap Letter.char?)

end ModuleLift.Text
