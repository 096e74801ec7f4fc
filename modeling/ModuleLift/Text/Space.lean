import ModuleLift.Text.Ranges

/-! White space in the wide sense, by which the indentation of a line is told. -/

namespace ModuleLift.Text

/-- The white space characters, line ends and separators included. -/
def spaces : Ranges :=
  [(0x09, 0x0d), (0x1c, 0x20), (0x85, 0x85), (0xa0, 0xa0), (0x1680, 0x1680), (0x2000, 0x200a),
   (0x2028, 0x2029), (0x202f, 0x202f), (0x205f, 0x205f), (0x3000, 0x3000)]

/-- Whether a letter is white space. -/
def isSpace (l : Letter) : Bool := spaces.holds l

end ModuleLift.Text
