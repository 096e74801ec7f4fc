import ModuleLift.Text.Lines
import ModuleLift.Text.Utf8

/-! Text survives being written as bytes and read again, and bytes that are text survive being read
and written again. -/

namespace ModuleLift

section Outcomes

variable {α β ε δ : Type} {attempt : Except ε α}

/-- Naming a failure otherwise makes none. -/
theorem mapError_eq_ok {name : ε → δ} {a : α} :
    attempt.mapError name = .ok a ↔ attempt = .ok a := by
  -- A failure is none under any name.
  cases attempt with
  | error e => exact iff_of_false (by rintro ⟨⟩) (by rintro ⟨⟩)
  | ok b =>
    constructor
    · rintro ⟨⟩
      rfl
    · rintro ⟨⟩
      rfl

/-- A result is changed where there is one. -/
theorem map_eq_ok {change : α → β} {b : β} :
    attempt.map change = .ok b ↔ ∃ a, attempt = .ok a ∧ change a = b := by
  -- A failure gives neither side.
  cases attempt with
  | error e => exact iff_of_false (by rintro ⟨⟩) (by rintro ⟨_, ⟨⟩, _⟩)
  | ok a =>
    constructor
    · rintro ⟨⟩
      exact ⟨a, rfl, rfl⟩
    · rintro ⟨_, ⟨⟩, rfl⟩
      rfl

/-- Two steps succeed where both do. -/
theorem bind_eq_ok {next : α → Except ε β} {b : β} :
    attempt >>= next = .ok b ↔ ∃ a, attempt = .ok a ∧ next a = .ok b := by
  -- If the first step fails, neither side holds.
  cases attempt with
  | error e => exact iff_of_false (by rintro ⟨⟩) (by rintro ⟨_, ⟨⟩, _⟩)
  | ok a =>
    constructor
    · intro found
      exact ⟨a, rfl, found⟩
    · rintro ⟨_, ⟨⟩, found⟩
      exact found

end Outcomes

namespace Text

section Bytes

/-- The number of a byte, if it is not too large for one. -/
theorem toNat_toUInt8 {n : Nat} (small : n < 256) : n.toUInt8.toNat = n := by
  simp [Nat.toUInt8, Nat.mod_eq_of_lt small]

/-- A byte is known by its number. -/
theorem toUInt8_eq {n : Nat} {b : UInt8} (same : n = b.toNat) : n.toUInt8 = b := by
  -- The number is that of a byte, so nothing is cut off.
  subst same
  exact UInt8.ofNat_toNat

/-- A number outside the surrogates is that of its character. -/
theorem toNat_ofNat {n : Nat} (valid : n.isValidChar) : (Char.ofNat n).toNat = n := by
  -- Only for other numbers a character is put in their place.
  rw [Char.ofNat, dif_pos valid]
  rfl

end Bytes

section Leads

variable {b : UInt8}

/-- A byte below `0x80` stands for itself. -/
theorem lead?_one (bound : b.toNat < 0x80) : lead? b = some ⟨b.toNat, 0, 0x80, 0xbf⟩ := by
  simp only [lead?, if_pos bound]

/-- The first of two bytes. -/
theorem lead?_two (above : 0xc2 ≤ b.toNat) (below : b.toNat < 0xe0) :
    lead? b = some ⟨b.toNat - 0xc0, 1, 0x80, 0xbf⟩ := by
  -- Both tests before are for smaller bytes.
  have first : ¬b.toNat < 0x80 := by omega
  have second : ¬b.toNat < 0xc2 := by omega
  simp only [lead?, if_neg first, if_neg second, if_pos below]

/-- The first lead of three bytes leaves out the shorter forms, and one of them the surrogates. -/
theorem lead?_three (above : 0xe0 ≤ b.toNat) (below : b.toNat < 0xf0) :
    ∃ low high, lead? b = some ⟨b.toNat - 0xe0, 2, low, high⟩ ∧ ∀ next, low ≤ next ∧ next ≤ high ↔
      0x80 ≤ next ∧ next ≤ 0xbf ∧ (b.toNat = 0xe0 → 0xa0 ≤ next) ∧
        (b.toNat = 0xed → next ≤ 0x9f) := by
  have first : ¬b.toNat < 0x80 := by omega
  have second : ¬b.toNat < 0xc2 := by omega
  have third : ¬b.toNat < 0xe0 := by omega
  simp only [lead?, if_neg first, if_neg second, if_neg third, if_pos below]
  -- The two leads with a range of their own come before the general one.
  by_cases shortest : b.toNat = 0xe0
  · rw [if_pos shortest, shortest]
    exact ⟨0xa0, 0xbf, rfl, fun next => by omega⟩
  · by_cases surrogate : b.toNat = 0xed
    · rw [if_neg shortest, if_pos surrogate, surrogate]
      exact ⟨0x80, 0x9f, rfl, fun next => by omega⟩
    · rw [if_neg shortest, if_neg surrogate]
      exact ⟨0x80, 0xbf, rfl, fun next => by omega⟩

/-- The first lead of four bytes leaves out the shorter forms, and the last what is past the last
character. -/
theorem lead?_four (above : 0xf0 ≤ b.toNat) (below : b.toNat ≤ 0xf4) :
    ∃ low high, lead? b = some ⟨b.toNat - 0xf0, 3, low, high⟩ ∧ ∀ next, low ≤ next ∧ next ≤ high ↔
      0x80 ≤ next ∧ next ≤ 0xbf ∧ (b.toNat = 0xf0 → 0x90 ≤ next) ∧
        (b.toNat = 0xf4 → next ≤ 0x8f) := by
  have first : ¬b.toNat < 0x80 := by omega
  have second : ¬b.toNat < 0xc2 := by omega
  have third : ¬b.toNat < 0xe0 := by omega
  have shortest : ¬b.toNat = 0xe0 := by omega
  have surrogate : ¬b.toNat = 0xed := by omega
  have fourth : ¬b.toNat < 0xf0 := by omega
  simp only [lead?, if_neg first, if_neg second, if_neg third, if_neg shortest, if_neg surrogate,
    if_neg fourth]
  -- The first and the last lead have a range of their own.
  by_cases lowest : b.toNat = 0xf0
  · rw [if_pos lowest, lowest]
    exact ⟨0x90, 0xbf, rfl, fun next => by omega⟩
  · by_cases highest : b.toNat = 0xf4
    · rw [if_neg lowest, if_neg (by omega), if_pos highest, highest]
      exact ⟨0x80, 0x8f, rfl, fun next => by omega⟩
    · rw [if_neg lowest, if_pos (by omega)]
      exact ⟨0x80, 0xbf, rfl, fun next => by omega⟩

/-- Other bytes cannot come first. -/
theorem lead?_none (other : 0x80 ≤ b.toNat ∧ b.toNat < 0xc2 ∨ 0xf4 < b.toNat) :
    lead? b = none := by
  -- Such a byte passes none of the tests, or the one that says so.
  have first : ¬b.toNat < 0x80 := by omega
  by_cases second : b.toNat < 0xc2
  · simp only [lead?, if_neg first, if_pos second]
  · have third : ¬b.toNat < 0xe0 := by omega
    have shortest : ¬b.toNat = 0xe0 := by omega
    have surrogate : ¬b.toNat = 0xed := by omega
    have fourth : ¬b.toNat < 0xf0 := by omega
    have low : ¬b.toNat = 0xf0 := by omega
    have middle : ¬b.toNat < 0xf4 := by omega
    have high : ¬b.toNat = 0xf4 := by omega
    simp only [lead?, if_neg first, if_neg second, if_neg third, if_neg shortest,
      if_neg surrogate, if_neg fourth, if_neg low, if_neg middle, if_neg high]

end Leads

section Following

/-- A byte in its range is taken up. -/
theorem follow_cons {bits low high due n : Nat} {b : UInt8} {rest : List UInt8}
    (above : low ≤ b.toNat) (below : b.toNat ≤ high)
    (later : follow (bits * 64 + (b.toNat - 0x80)) 0x80 0xbf due rest = .ok n) :
    follow bits low high (due + 1) (b :: rest) = .ok n := by
  -- The range of the bytes after it is the full one.
  rw [follow, if_pos (by simp [above, below])]
  exact mapError_eq_ok.mpr later

/-- Bytes that are due were there, each in its range. -/
theorem of_follow {bits low high due n : Nat} {rest : List UInt8}
    (read : follow bits low high (due + 1) rest = .ok n) :
    ∃ b more, rest = b :: more ∧ low ≤ b.toNat ∧ b.toNat ≤ high ∧
      follow (bits * 64 + (b.toNat - 0x80)) 0x80 0xbf due more = .ok n := by
  -- A missing byte or one out of its range is a failure.
  cases rest with
  | nil => cases read
  | cons b more =>
    rw [follow] at read
    split at read
    · rename_i fits
      rw [Bool.and_eq_true, decide_eq_true_eq, decide_eq_true_eq] at fits
      exact ⟨b, more, rfl, fits.1, fits.2, mapError_eq_ok.mp read⟩
    · cases read

end Following

section Characters

variable {c : Char}

/-- A character below `0x80` is one byte. -/
theorem encodeChar_one (below : c.toNat < 0x80) : encodeChar c = [c.toNat.toUInt8] := by
  simp only [encodeChar, if_pos below]

/-- A character below `0x800` is two bytes. -/
theorem encodeChar_two (above : 0x80 ≤ c.toNat) (below : c.toNat < 0x800) :
    encodeChar c = [(0xc0 + c.toNat / 64).toUInt8, (0x80 + c.toNat % 64).toUInt8] := by
  simp only [encodeChar, if_neg (Nat.not_lt.mpr above), if_pos below]

/-- A character below `0x10000` is three bytes. -/
theorem encodeChar_three (above : 0x800 ≤ c.toNat) (below : c.toNat < 0x10000) :
    encodeChar c = [(0xe0 + c.toNat / 4096).toUInt8, (0x80 + c.toNat / 64 % 64).toUInt8,
      (0x80 + c.toNat % 64).toUInt8] := by
  -- The two tests before are for smaller characters.
  have first : ¬c.toNat < 0x80 := by omega
  simp only [encodeChar, if_neg first, if_neg (Nat.not_lt.mpr above), if_pos below]

/-- Any other character is four bytes. -/
theorem encodeChar_four (above : 0x10000 ≤ c.toNat) :
    encodeChar c = [(0xf0 + c.toNat / 262144).toUInt8, (0x80 + c.toNat / 4096 % 64).toUInt8,
      (0x80 + c.toNat / 64 % 64).toUInt8, (0x80 + c.toNat % 64).toUInt8] := by
  -- All tests are for smaller characters.
  have first : ¬c.toNat < 0x80 := by omega
  have second : ¬c.toNat < 0x800 := by omega
  simp only [encodeChar, if_neg first, if_neg second, if_neg (Nat.not_lt.mpr above)]

end Characters

section Joined

variable {b c d e : UInt8}

/-- What two bytes stand for is written as these bytes. -/
theorem encodeChar_joined_two (above : 0xc2 ≤ b.toNat) (below : b.toNat < 0xe0)
    (least : 0x80 ≤ c.toNat) (most : c.toNat ≤ 0xbf) :
    encodeChar (Char.ofNat ((b.toNat - 0xc0) * 64 + (c.toNat - 0x80))) = [b, c] := by
  -- The six bits of the second byte come off by division.
  have code := toNat_ofNat (n := (b.toNat - 0xc0) * 64 + (c.toNat - 0x80))
    (by simp only [Nat.isValidChar]; omega)
  rw [encodeChar_two (by omega) (by omega), code, toUInt8_eq (b := b) (by omega),
    toUInt8_eq (b := c) (by omega)]

/-- What three bytes stand for is written as these bytes, if two would not do and it is no
surrogate. -/
theorem encodeChar_joined_three (above : 0xe0 ≤ b.toNat) (below : b.toNat < 0xf0)
    (range : 0x80 ≤ c.toNat ∧ c.toNat ≤ 0xbf ∧ (b.toNat = 0xe0 → 0xa0 ≤ c.toNat) ∧
      (b.toNat = 0xed → c.toNat ≤ 0x9f))
    (least : 0x80 ≤ d.toNat) (most : d.toNat ≤ 0xbf) :
    encodeChar (Char.ofNat (((b.toNat - 0xe0) * 64 + (c.toNat - 0x80)) * 64 +
      (d.toNat - 0x80))) = [b, c, d] := by
  -- The range of the second byte keeps the number above `0x7ff` and off the surrogates.
  have code := toNat_ofNat
    (n := ((b.toNat - 0xe0) * 64 + (c.toNat - 0x80)) * 64 + (d.toNat - 0x80))
    (by simp only [Nat.isValidChar]; omega)
  rw [encodeChar_three (by omega) (by omega), code, toUInt8_eq (b := b) (by omega),
    toUInt8_eq (b := c) (by omega), toUInt8_eq (b := d) (by omega)]

/-- What four bytes stand for is written as these bytes, if three would not do and it is not past
the last character. -/
theorem encodeChar_joined_four (above : 0xf0 ≤ b.toNat) (below : b.toNat ≤ 0xf4)
    (range : 0x80 ≤ c.toNat ∧ c.toNat ≤ 0xbf ∧ (b.toNat = 0xf0 → 0x90 ≤ c.toNat) ∧
      (b.toNat = 0xf4 → c.toNat ≤ 0x8f))
    (least : 0x80 ≤ d.toNat) (most : d.toNat ≤ 0xbf)
    (lower : 0x80 ≤ e.toNat) (higher : e.toNat ≤ 0xbf) :
    encodeChar (Char.ofNat ((((b.toNat - 0xf0) * 64 + (c.toNat - 0x80)) * 64 +
      (d.toNat - 0x80)) * 64 + (e.toNat - 0x80))) = [b, c, d, e] := by
  -- The range of the second byte keeps the number above `0xffff` and below `0x110000`.
  have code := toNat_ofNat
    (n := (((b.toNat - 0xf0) * 64 + (c.toNat - 0x80)) * 64 + (d.toNat - 0x80)) * 64 +
      (e.toNat - 0x80))
    (by simp only [Nat.isValidChar]; omega)
  rw [encodeChar_four (by omega), code, toUInt8_eq (b := b) (by omega),
    toUInt8_eq (b := c) (by omega), toUInt8_eq (b := d) (by omega), toUInt8_eq (b := e) (by omega)]

end Joined

/-- What the lead of a character and the bytes after it stand for is written as these bytes. -/
theorem encodeChar_of_follow {b : UInt8} {lead : Lead} {rest : List UInt8} {n : Nat}
    (starts : lead? b = some lead)
    (read : follow lead.bits lead.low lead.high lead.following rest = .ok n) :
    encodeChar (Char.ofNat n) ++ rest.drop lead.following = b :: rest := by
  -- One case for each number of bytes; outside of them nothing can start.
  rcases Nat.lt_or_ge b.toNat 0x80 with one | above
  · rw [lead?_one one] at starts
    obtain rfl := Option.some.inj starts
    obtain rfl := Except.ok.inj read
    have code := toNat_ofNat (n := b.toNat) (by simp only [Nat.isValidChar]; omega)
    dsimp only
    rw [encodeChar_one (by omega), code, toUInt8_eq rfl]
    rfl
  rcases Nat.lt_or_ge b.toNat 0xc2 with early | above
  · rw [lead?_none (.inl ⟨‹_›, early⟩)] at starts
    cases starts
  rcases Nat.lt_or_ge b.toNat 0xe0 with two | above
  · rw [lead?_two ‹_› two] at starts
    obtain rfl := Option.some.inj starts
    obtain ⟨c, rest, rfl, least, most, read⟩ := of_follow read
    obtain rfl := Except.ok.inj read
    dsimp only at least most ⊢
    rw [encodeChar_joined_two ‹_› two least most]
    rfl
  rcases Nat.lt_or_ge b.toNat 0xf0 with three | above
  · obtain ⟨low, high, row, range⟩ := lead?_three ‹_› three
    obtain rfl := Option.some.inj (row.symm.trans starts)
    obtain ⟨c, rest, rfl, least, most, read⟩ := of_follow read
    obtain ⟨d, rest, rfl, lower, higher, read⟩ := of_follow read
    obtain rfl := Except.ok.inj read
    dsimp only
    rw [encodeChar_joined_three ‹_› three ((range c.toNat).mp ⟨least, most⟩) lower higher]
    rfl
  rcases Nat.lt_or_ge 0xf4 b.toNat with late | four
  · rw [lead?_none (.inr late)] at starts
    cases starts
  · obtain ⟨low, high, row, range⟩ := lead?_four ‹_› four
    obtain rfl := Option.some.inj (row.symm.trans starts)
    obtain ⟨c, rest, rfl, least, most, read⟩ := of_follow read
    obtain ⟨d, rest, rfl, lower, higher, read⟩ := of_follow read
    obtain ⟨e, rest, rfl, lowest, highest, read⟩ := of_follow read
    obtain rfl := Except.ok.inj read
    dsimp only
    rw [encodeChar_joined_four ‹_› four ((range c.toNat).mp ⟨least, most⟩) lower higher lowest
      highest]
    rfl

/-- The bytes of a character are a lead and what it announces. -/
theorem follow_encodeChar (c : Char) (rest : List UInt8) :
    ∃ b bits due low high more, encodeChar c ++ rest = b :: more ∧
      lead? b = some ⟨bits, due, low, high⟩ ∧ follow bits low high due more = .ok c.toNat ∧
      more.drop due = rest := by
  have valid : c.toNat.isValidChar := c.valid
  -- Surrogates and what is past the last character are no characters: the special ranges of a lead
  -- leave out nothing else.
  simp only [Nat.isValidChar] at valid
  -- One case per length. In each the bits put together again are those taken apart.
  rcases Nat.lt_or_ge c.toNat 0x80 with one | above
  · have first := toNat_toUInt8 (n := c.toNat) (by omega)
    rw [encodeChar_one one]
    refine ⟨_, _, _, _, _, _, rfl, lead?_one (by omega), ?_, rfl⟩
    rw [first]
    rfl
  rcases Nat.lt_or_ge c.toNat 0x800 with two | above
  · have first := toNat_toUInt8 (n := 0xc0 + c.toNat / 64) (by omega)
    have second := toNat_toUInt8 (n := 0x80 + c.toNat % 64) (by omega)
    rw [encodeChar_two ‹_› two]
    refine ⟨_, _, _, _, _, _, rfl, lead?_two (by omega) (by omega),
      follow_cons (by omega) (by omega) (congrArg Except.ok ?_), rfl⟩
    omega
  rcases Nat.lt_or_ge c.toNat 0x10000 with three | above
  · have first := toNat_toUInt8 (n := 0xe0 + c.toNat / 4096) (by omega)
    have second := toNat_toUInt8 (n := 0x80 + c.toNat / 64 % 64) (by omega)
    have third := toNat_toUInt8 (n := 0x80 + c.toNat % 64) (by omega)
    rw [encodeChar_three ‹_› three]
    obtain ⟨low, high, row, range⟩ :=
      lead?_three (b := (0xe0 + c.toNat / 4096).toUInt8) (by omega) (by omega)
    obtain ⟨least, most⟩ := (range (0x80 + c.toNat / 64 % 64)).mpr (by omega)
    refine ⟨_, _, _, _, _, _, rfl, row, follow_cons (by omega) (by omega)
      (follow_cons (by omega) (by omega) (congrArg Except.ok ?_)), rfl⟩
    omega
  · have first := toNat_toUInt8 (n := 0xf0 + c.toNat / 262144) (by omega)
    have second := toNat_toUInt8 (n := 0x80 + c.toNat / 4096 % 64) (by omega)
    have third := toNat_toUInt8 (n := 0x80 + c.toNat / 64 % 64) (by omega)
    have fourth := toNat_toUInt8 (n := 0x80 + c.toNat % 64) (by omega)
    rw [encodeChar_four ‹_›]
    obtain ⟨low, high, row, range⟩ :=
      lead?_four (b := (0xf0 + c.toNat / 262144).toUInt8) (by omega) (by omega)
    obtain ⟨least, most⟩ := (range (0x80 + c.toNat / 4096 % 64)).mpr (by omega)
    refine ⟨_, _, _, _, _, _, rfl, row, follow_cons (by omega) (by omega)
      (follow_cons (by omega) (by omega)
        (follow_cons (by omega) (by omega) (congrArg Except.ok ?_))), rfl⟩
    omega

/-- A character is read back from its bytes, whatever follows them. -/
theorem decodeFrom_encodeChar (position : Nat) (c : Char) (rest : List UInt8) :
    ∃ next, decodeFrom position (encodeChar c ++ rest) =
      (decodeFrom next rest).map (.char c :: ·) := by
  -- The first byte says how many follow, and they are taken up.
  obtain ⟨b, bits, due, low, high, more, bytes, starts, read, left⟩ := follow_encodeChar c rest
  refine ⟨position + 1 + due, ?_⟩
  rw [bytes, decodeFrom, starts]
  simp only [read, left, Char.ofNat_toNat]

/-- A text of characters is read back from its bytes. -/
theorem decodeFrom_flatMap (position : Nat) (chars : List Char) :
    decodeFrom position (chars.flatMap encodeChar) = .ok (chars.map .char) := by
  -- Character by character, from any position on.
  induction chars generalizing position with
  | nil => rw [List.flatMap_nil, decodeFrom, List.map_nil]
  | cons c rest ih =>
    obtain ⟨next, read⟩ := decodeFrom_encodeChar position c (rest.flatMap encodeChar)
    rw [List.flatMap_cons, read, ih]
    rfl

/-- A text without halves is one of characters. -/
theorem exists_chars {text : Text} (whole : ∀ l ∈ text, l.isHalf = false) :
    ∃ chars : List Char, text = chars.map .char := by
  -- Letter by letter.
  induction text with
  | nil => exact ⟨[], rfl⟩
  | cons l rest ih =>
    obtain ⟨chars, rfl⟩ := ih fun other held => whole other (List.mem_cons_of_mem _ held)
    cases l with
    | char c => exact ⟨c :: chars, rfl⟩
    | half index => cases whole _ List.mem_cons_self

/-- Only halves keep a text from being bytes. -/
theorem encodeFault?_eq_none {text : Text} :
    encodeFault? text = none ↔ ∃ chars : List Char, text = chars.map .char := by
  rw [encodeFault?]
  constructor
  · intro sound
    split at sound
    · -- All of the text stands before the first half.
      rename_i spent
      have start : (text.takeWhile fun l => !l.isHalf) = text :=
        (List.takeWhile_prefix _).eq_of_length_le (List.drop_eq_nil_iff.mp spent)
      have all := @List.all_takeWhile _ (fun l : Letter => !l.isHalf) text
      rw [start, List.all_eq_true] at all
      exact exists_chars fun l held => by simpa using all l held
    · cases sound
  · rintro ⟨chars, rfl⟩
    have start : ((chars.map Letter.char).takeWhile fun l => !l.isHalf) = chars.map .char := by
      induction chars with
      | nil => rfl
      | cons c rest ih => rw [List.map_cons, List.takeWhile_cons_of_pos rfl, ih]
    simp only [start, List.drop_length]

/-- A text that has bytes is one of characters, and its bytes are theirs. -/
theorem encode_eq_ok {text : Text} {bytes : List UInt8} :
    encode text = .ok bytes ↔ ∃ chars : List Char, text = chars.map .char ∧
      bytes = chars.flatMap encodeChar := by
  -- Of a text of characters nothing is left out.
  have chosen (chars : List Char) : (chars.map Letter.char).filterMap Letter.char? = chars := by
    rw [List.filterMap_map]
    exact List.filterMap_some
  rw [encode]
  constructor
  · intro written
    split at written
    · cases written
    · rename_i sound
      obtain ⟨chars, rfl⟩ := encodeFault?_eq_none.mp sound
      rw [chosen] at written
      exact ⟨chars, rfl, (Except.ok.inj written).symm⟩
  · rintro ⟨chars, rfl, rfl⟩
    rw [encodeFault?_eq_none.mpr ⟨chars, rfl⟩]
    simp only [chosen]

/-- A text is read back from its bytes. -/
theorem decode_encode {text : Text} {bytes : List UInt8} (written : encode text = .ok bytes) :
    decode bytes = .ok text := by
  -- What can be written is a text of characters.
  obtain ⟨chars, rfl, rfl⟩ := encode_eq_ok.mp written
  exact decodeFrom_flatMap 0 chars

/-- Bytes that are text are those of the text. -/
theorem flatMap_of_decodeFrom {position : Nat} {bytes : List UInt8} {text : Text}
    (read : decodeFrom position bytes = .ok text) :
    ∃ chars : List Char, text = chars.map .char ∧ bytes = chars.flatMap encodeChar := by
  -- Along the recursion of the decoder: a character is read, or the bytes are no text.
  fun_induction decodeFrom position bytes generalizing text with
  | case1 position => exact ⟨[], by simpa using read.symm, rfl⟩
  | case2 position b rest none => cases read
  | case3 position b rest lead starts problem good fails => cases read
  | case4 position b rest lead starts n follows ih =>
    obtain ⟨more, later, rfl⟩ := map_eq_ok.mp read
    obtain ⟨chars, rfl, left⟩ := ih later
    refine ⟨Char.ofNat n :: chars, rfl, ?_⟩
    rw [List.flatMap_cons, ← left]
    exact (encodeChar_of_follow starts follows).symm

/-- Bytes are written back from the text they are. -/
theorem encode_decode {bytes : List UInt8} {text : Text} (read : decode bytes = .ok text) :
    encode text = .ok bytes :=
  encode_eq_ok.mpr (flatMap_of_decodeFrom read)

/-- A text without carriage returns has its line breaks unified. -/
theorem unifyBreaks_eq_self {text : Text} (plain : .char '\r' ∉ text) :
    unifyBreaks text = text := by
  -- Along the recursion: the two cases of a carriage return do not occur.
  fun_induction unifyBreaks text with
  | case1 => rfl
  | case2 rest ih => simp at plain
  | case3 rest _ ih => simp at plain
  | case4 c rest _ _ ih => rw [ih fun held => plain (List.mem_cons_of_mem _ held)]

/-- No carriage return is left where line breaks are unified. -/
theorem not_mem_unifyBreaks (text : Text) : .char '\r' ∉ unifyBreaks text := by
  -- Along the recursion: a carriage return becomes a line feed, alone or with the one behind it.
  fun_induction unifyBreaks text with
  | case1 => simp
  | case2 rest ih => simpa using ih
  | case3 rest _ ih => simpa using ih
  | case4 c rest _ other ih =>
    intro held
    rcases List.mem_cons.mp held with same | later
    · exact other same.symm
    · exact ih later

/-- Only a carriage return has the byte of one. -/
theorem mem_encodeChar {c : Char} (held : 0x0d ∈ encodeChar c) : c = '\r' := by
  have bound : c.toNat < 0x110000 := by
    have := c.valid
    simp only [UInt32.isValidChar, Nat.isValidChar] at this
    show c.val.toNat < 0x110000
    omega
  -- The bytes of a character that takes several are all above 127.
  have high {n : Nat} (above : 0x80 ≤ n) (below : n < 256) : (0x0d : UInt8) ≠ n.toUInt8 := by
    intro same
    have := congrArg UInt8.toNat same
    rw [toNat_toUInt8 below] at this
    simp at this
    omega
  rcases Nat.lt_or_ge c.toNat 0x80 with one | above
  · rw [encodeChar_one one, List.mem_singleton] at held
    have same := congrArg UInt8.toNat held
    rw [toNat_toUInt8 (by omega)] at same
    exact Char.toNat_inj.mp same.symm
  rcases Nat.lt_or_ge c.toNat 0x800 with two | above
  · simp only [encodeChar_two ‹_› two, List.mem_cons, List.not_mem_nil, or_false] at held
    rcases held with same | same <;> exact absurd same (high (by omega) (by omega))
  rcases Nat.lt_or_ge c.toNat 0x10000 with three | above
  · simp only [encodeChar_three ‹_› three, List.mem_cons, List.not_mem_nil, or_false] at held
    rcases held with same | same | same <;> exact absurd same (high (by omega) (by omega))
  · simp only [encodeChar_four above, List.mem_cons, List.not_mem_nil, or_false] at held
    rcases held with same | same | same | same <;>
      exact absurd same (high (by omega) (by omega))

/-- A text has a carriage return just if its bytes have one. -/
theorem return_mem_iff {text : Text} {bytes : List UInt8} (written : encode text = .ok bytes) :
    .char '\r' ∈ text ↔ 0x0d ∈ bytes := by
  -- No other character has the byte of a carriage return among its own.
  obtain ⟨chars, rfl, rfl⟩ := encode_eq_ok.mp written
  rw [List.mem_map, List.mem_flatMap]
  constructor
  · rintro ⟨c, member, same⟩
    obtain rfl := Letter.char.inj same
    exact ⟨_, member, by decide⟩
  · rintro ⟨c, member, held⟩
    exact ⟨c, member, congrArg Letter.char (mem_encodeChar held)⟩

/-- Bytes stay as they are when their line breaks are unified just if they hold no carriage
return. -/
theorem encode_unifyBreaks {bytes unified : List UInt8} {text : Text}
    (read : decode bytes = .ok text) (written : encode (unifyBreaks text) = .ok unified) :
    unified = bytes ↔ 0x0d ∉ bytes := by
  -- No carriage return is left, and without any nothing is changed.
  constructor
  · rintro rfl held
    exact not_mem_unifyBreaks text ((return_mem_iff written).mpr held)
  · intro plain
    have clean : .char '\r' ∉ text := fun held =>
      plain ((return_mem_iff (encode_decode read)).mp held)
    rw [unifyBreaks_eq_self clean, encode_decode read] at written
    exact (Except.ok.inj written).symm

end Text

end ModuleLift
