import ModuleLift.Text.Letter

/-! Numbers in hexadecimal digits. -/

namespace ModuleLift.Text

/-- Hexadecimal digits, padded with zeros to a width. -/
def hexPadded (width n : Nat) : Text :=
  let digits := Nat.toDigits 16 n
  (List.replicate (width - digits.length) '0' ++ digits).map Letter.char

end ModuleLift.Text
