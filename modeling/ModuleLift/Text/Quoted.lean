import ModuleLift.Text.Letter

/-! Text between quotes, with a backslash before each quote and backslash inside. -/

namespace ModuleLift.Text

/-- A text with a backslash before each occurrence of a character. -/
def escapeChar (escaped : Char) (text : Text) : Text :=
  text.flatMap fun (l : Letter) => if l = escaped then ['\\', l] else [l]

/-- A text with a backslash before each backslash, and then before each quote. -/
def escape (quote : Char) (text : Text) : Text :=
  escapeChar quote (escapeChar '\\' text)

/-- A text between quotes. -/
def quoted (quote : Char) (text : Text) : Text :=
  quote :: (escape quote text ++ [.char quote])

end ModuleLift.Text
