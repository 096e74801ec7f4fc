import ModuleLift.Text.Letter

/-! Lines of text. -/

namespace ModuleLift.Text

/-- The text with each line break written as a newline. -/
def unifyBreaks : Text → Text
  | [] => []
  | .char '\r' :: .char '\n' :: rest => '\n' :: unifyBreaks rest
  | .char '\r' :: rest => '\n' :: unifyBreaks rest
  | c :: rest => c :: unifyBreaks rest

/-- Whether a letter ends a line. -/
def endsLine (c : Letter) : Bool :=
  [0x0a, 0x0b, 0x0c, 0x0d, 0x1c, 0x1d, 0x1e, 0x85, 0x2028, 0x2029].contains c.code

/-- Puts a letter before the first of some lines. -/
def consLine (c : Letter) : List Text → List Text
  | [] => [[c]]
  | line :: rest => (c :: line) :: rest

/-- The lines of a text, each with what ends it. -/
def splitLines : Text → List Text
  | [] => []
  | .char '\r' :: .char '\n' :: rest => [.char '\r', .char '\n'] :: splitLines rest
  | c :: rest => if endsLine c then [c] :: splitLines rest else consLine c (splitLines rest)

end ModuleLift.Text
