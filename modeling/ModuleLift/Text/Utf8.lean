import ModuleLift.Text.Hex

/-! Text as bytes in UTF-8, and where bytes fail to be that. -/

namespace ModuleLift.Text

/-- The bytes of a character. -/
def encodeChar (c : Char) : List UInt8 :=
  let n := c.toNat
  if n < 0x80 then [n.toUInt8]
  else if n < 0x800 then [(0xc0 + n / 64).toUInt8, (0x80 + n % 64).toUInt8]
  else if n < 0x10000 then
    [(0xe0 + n / 4096).toUInt8, (0x80 + n / 64 % 64).toUInt8, (0x80 + n % 64).toUInt8]
  else
    [(0xf0 + n / 262144).toUInt8, (0x80 + n / 4096 % 64).toUInt8, (0x80 + n / 64 % 64).toUInt8,
      (0x80 + n % 64).toUInt8]

/-- The halves that keep a text from being bytes: `count` of them from `position` on. -/
structure EncodeFault where
  position : Nat
  count : Nat
  /-- The code point of the first. -/
  first : Nat
deriving DecidableEq, Repr, Inhabited

/-- The wording of such a fault. -/
def EncodeFault.message (f : EncodeFault) : Text :=
  let characters : Text :=
    if f.count = 1 then
      "character '\\u" ++ hexPadded 4 f.first ++ "' in position " ++
        toString f.position
    else
      "characters in position " ++ toString f.position ++ "-" ++ toString (f.position + f.count - 1)
  "'utf-8' codec can't encode " ++ characters ++ ": surrogates not allowed"

/-- The first halves of a text, if it has any. -/
def encodeFault? (text : Text) : Option EncodeFault :=
  let before := text.takeWhile fun l => !l.isHalf
  match text.drop before.length with
  | [] => none
  | first :: rest =>
    some {
      position := before.length
      count := 1 + (rest.takeWhile Letter.isHalf).length
      first := first.code }

/-- The bytes of a text. Only characters have bytes. -/
def encode (text : Text) : Except EncodeFault (List UInt8) :=
  match encodeFault? text with
  | some fault => .error fault
  | none => .ok ((text.filterMap Letter.char?).flatMap encodeChar)

/-- What is wrong with bytes. -/
inductive Utf8Problem where
  | start
  | continuation
  | truncated
deriving DecidableEq, Repr, Inhabited

/-- The bytes that are no text, and why: `count` of them from `position` on. -/
structure Utf8Fault where
  problem : Utf8Problem
  position : Nat
  count : Nat
  /-- The first of the bytes. -/
  first : UInt8
deriving DecidableEq, Repr, Inhabited

/-- Two hexadecimal digits. -/
def hexByte (b : UInt8) : Text := hexPadded 2 b.toNat

/-- The wording of a problem. -/
def Utf8Problem.message : Utf8Problem → String
  | .start => "invalid start byte"
  | .continuation => "invalid continuation byte"
  | .truncated => "unexpected end of data"

/-- The wording of a fault. -/
def Utf8Fault.message (f : Utf8Fault) : Text :=
  let bytes : Text :=
    if f.count = 1 then "byte 0x" ++ hexByte f.first ++ " in position " ++ toString f.position
    else
      "bytes in position " ++ toString f.position ++ "-" ++ toString (f.position + f.count - 1)
  "'utf-8' codec can't decode " ++ bytes ++ ": " ++ f.problem.message

/-- What the first byte of a character tells: its own bits, how many bytes follow, and the range of
the next one. -/
structure Lead where
  bits : Nat
  following : Nat
  low : Nat
  high : Nat

/-- What a first byte tells; some bytes cannot come first. -/
def lead? (b : UInt8) : Option Lead :=
  let n := b.toNat
  if n < 0x80 then some ⟨n, 0, 0x80, 0xbf⟩
  -- A character has one form only, so the first two leads of two bytes are never used.
  else if n < 0xc2 then none
  else if n < 0xe0 then some ⟨n - 0xc0, 1, 0x80, 0xbf⟩
  else if n = 0xe0 then some ⟨0, 2, 0xa0, 0xbf⟩
  -- Surrogates are no characters.
  else if n = 0xed then some ⟨0xd, 2, 0x80, 0x9f⟩
  else if n < 0xf0 then some ⟨n - 0xe0, 2, 0x80, 0xbf⟩
  else if n = 0xf0 then some ⟨0, 3, 0x90, 0xbf⟩
  else if n < 0xf4 then some ⟨n - 0xf0, 3, 0x80, 0xbf⟩
  -- There are no characters past U+10FFFF.
  else if n = 0xf4 then some ⟨4, 3, 0x80, 0x8f⟩
  else none

/-- Reads the bytes that follow a first one, as many as are due; only the next one has a range of
its own. Fails with the problem and the number of bytes that were in order. -/
def follow (bits low high : Nat) : Nat → List UInt8 → Except (Utf8Problem × Nat) Nat
  | 0, _ => .ok bits
  | _ + 1, [] => .error (.truncated, 0)
  | due + 1, b :: rest =>
    if low ≤ b.toNat && b.toNat ≤ high then
      (follow (bits * 64 + (b.toNat - 0x80)) 0x80 0xbf due rest).mapError fun (problem, good) =>
        (problem, good + 1)
    else .error (.continuation, 0)

/-- Reads bytes as text; `position` is where the first of them stands. -/
def decodeFrom (position : Nat) : List UInt8 → Except Utf8Fault Text
  | [] => .ok []
  | b :: rest =>
    match lead? b with
    | none => .error { problem := .start, position, count := 1, first := b }
    | some lead =>
      -- The fault covers the lead and the bytes that still fitted.
      match follow lead.bits lead.low lead.high lead.following rest with
      | .error (problem, good) => .error { problem, position, count := good + 1, first := b }
      | .ok n =>
        (decodeFrom (position + 1 + lead.following) (rest.drop lead.following)).map
          (.char (Char.ofNat n) :: ·)
termination_by bytes => bytes.length
decreasing_by simp only [List.length_drop, List.length_cons]; omega

/-- Reads bytes as text. -/
def decode (bytes : List UInt8) : Except Utf8Fault Text := decodeFrom 0 bytes

end ModuleLift.Text
