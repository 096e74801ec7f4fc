/-! Text as a list of letters: characters, and halves of characters that escapes name one by one. -/

namespace ModuleLift

/-- One place of a text. A half is no character, and two halves in a row stay two also where they
would make one character. -/
inductive Letter where
  | char (value : Char)
  /-- The surrogate that many places after the first. -/
  | half (index : Fin 2048)
deriving DecidableEq, Repr, Inhabited

instance : Coe Char Letter := ⟨.char⟩

namespace Letter

/-- The code point of a letter. -/
def code : Letter → Nat
  | .char c => c.toNat
  | .half index => 0xd800 + index

/-- The letter with a code point. -/
def ofCode (n : Nat) : Letter :=
  if bounds : 0xd800 ≤ n ∧ n < 0xe000 then .half ⟨n - 0xd800, by omega⟩
  else .char (Char.ofNat n)

/-- The character a letter is, unless it is a half. -/
def char? : Letter → Option Char
  | .char c => some c
  | .half _ => none

/-- Whether a letter is a half. -/
def isHalf (l : Letter) : Bool := l.char?.isNone

/-- Whether a letter is a character of a class. -/
def isIn (l : Letter) (test : Char → Bool) : Bool := l.char?.any test

/-- A letter of the Latin alphabet, without accents. -/
def isAlpha (l : Letter) : Bool := l.isIn Char.isAlpha

/-- The digits `0` to `9`. -/
def isDigit (l : Letter) : Bool := l.isIn Char.isDigit

/-- A letter is known by its code point. -/
theorem ofCode_code (l : Letter) : ofCode l.code = l := by
  cases l with
  | char c =>
    -- No character lies among the surrogates.
    have outside : ¬(0xd800 ≤ c.toNat ∧ c.toNat < 0xe000) := by
      have valid := c.valid
      simp only [UInt32.isValidChar, Nat.isValidChar] at valid
      simp only [Char.toNat]
      omega
    simp only [code, ofCode, outside, dif_neg, not_false_eq_true, Char.ofNat_toNat]
  | half index =>
    have bound := index.isLt
    have inside : 0xd800 ≤ 0xd800 + index.val ∧ 0xd800 + index.val < 0xe000 := by omega
    simp only [code, ofCode, inside, dif_pos, and_self, Nat.add_sub_cancel_left]

end Letter

/-- A text. -/
abbrev Text := List Letter

namespace Text

/-- A string as text. -/
def ofString (s : String) : Text := s.toList.map Letter.char

instance : Coe String Text := ⟨ofString⟩

/-- The string a text is, unless it holds a half. -/
def string? (text : Text) : Option String := (text.mapM Letter.char?).map String.ofList

/-- Whether a text is one of some strings. -/
def isOneOf (text : Text) (strings : List String) : Bool := text.string?.any strings.contains

/-- Whether a text starts with another. -/
def startsWith (start text : Text) : Bool := start.isPrefixOf text

/-- A number in decimal digits. -/
def ofNat (n : Nat) : Text := toString n

/-- Texts joined, with one of their kind between each two. -/
def joined (between : Text) (texts : List Text) : Text := List.intercalate between texts

/-- A string is read back from its text. -/
theorem string?_ofString (s : String) : string? (ofString s) = some s := by
  -- The letters of a string are all characters.
  have all : ∀ chars : List Char, (chars.map Letter.char).mapM Letter.char? = some chars := by
    intro chars
    induction chars with
    | nil => rfl
    | cons c rest ih => simp [ih, Letter.char?]
  simp [string?, ofString, all]

end Text

end ModuleLift
