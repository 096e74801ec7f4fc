import ModuleLift.Text.Letters
import ModuleLift.Text.Continuers

/-! The character classes JavaScript text is cut by: blanks, line ends, words and digits. -/

namespace ModuleLift.Text

/-- White space between tokens; line ends are not among it. -/
def isBlank (c : Letter) : Bool :=
  c = ' ' || c = '\t' || c.code = 0x0b || c.code = 0x0c || c.code = 0xa0 || c.code = 0x1680 ||
  c.code = 0x180e || (0x2000 ≤ c.code && c.code ≤ 0x200a) || c.code = 0x202f ||
  c.code = 0x205f || c.code = 0x3000 || c.code = 0xfeff

/-- The four characters that end a line. -/
def isLineEnd (c : Letter) : Bool :=
  c = '\n' || c = '\r' || c.code = 0x2028 || c.code = 0x2029

/-- Characters that start a word though they are no letters: they once were. -/
def otherStarters : Ranges :=
  [(0x1885, 0x1886), (0x2118, 0x2118), (0x212e, 0x212e), (0x309b, 0x309c)]

/-- Characters that continue a word though they are no digits or marks, such as the middle dot. -/
def otherContinuers : Ranges :=
  [(0xb7, 0xb7), (0x387, 0x387), (0x1369, 0x1371), (0x19da, 0x19da)]

/-- Letters, `$` and `_`, and the backslash that opens an escaped letter. -/
def startsWord (c : Letter) : Bool :=
  c.isAlpha || c = '$' || c = '_' || c = '\\' ||
  (0x80 ≤ c.code && (letters.holds c || otherStarters.holds c))

/-- What may follow inside a word: also digits, marks, connectors and the two joiners. -/
def continuesWord (c : Letter) : Bool :=
  startsWord c || c.isDigit ||
  (0x80 ≤ c.code && (continuers.holds c || otherContinuers.holds c || c.code = 0x200c ||
    c.code = 0x200d))

/-- The value of a hexadecimal digit. -/
def hexDigit? (c : Letter) : Option Nat :=
  if c.isDigit then some (c.code - '0'.toNat)
  else if c.isIn fun c => 'a' ≤ c && c ≤ 'f' then some (c.code - 'a'.toNat + 10)
  else if c.isIn fun c => 'A' ≤ c && c ≤ 'F' then some (c.code - 'A'.toNat + 10)
  else none

/-- The digits `0` to `7`. -/
def isOctalDigit (c : Letter) : Bool := c.isIn fun c => '0' ≤ c && c ≤ '7'

end ModuleLift.Text
