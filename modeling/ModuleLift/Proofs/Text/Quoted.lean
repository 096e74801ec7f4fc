import ModuleLift.Tree.Build
import Mathlib.Data.List.Basic

/-! Quoted text can be read again: the first quote that no backslash takes with it is the one at the
end, and without the backslashes that take a letter with them the text is the one that was
quoted. -/

namespace ModuleLift

namespace Text

/-! Reading. -/

/-- How many letters stand before the first quote that no backslash takes with it. -/
def closingQuote? (quote : Letter) : Text → Option Nat
  | [] => none
  | l :: rest =>
    if l = quote then some 0
    else if l = '\\' then
      match rest with
      | [] => none
      | _ :: rest => (closingQuote? quote rest).map (· + 2)
    else (closingQuote? quote rest).map (· + 1)

/-- A text without the backslashes that take a letter with them; the letter stays. -/
def unescape : Text → Text
  | [] => []
  | l :: rest =>
    if l = '\\' then
      match rest with
      | [] => [l]
      | taken :: rest => taken :: unescape rest
    else l :: unescape rest

section Escape

variable {quote : Char}

/-- What is written for a letter between quotes. -/
def escapeLetter (quote : Char) (l : Letter) : Text :=
  if l = '\\' ∨ l = quote then ['\\', l] else [l]

/-- The backslashes put in first are not taken for letters of the text when the quotes get theirs,
unless the quote is a backslash itself. -/
theorem escape_eq (proper : quote ≠ '\\') (text : Text) :
    escape quote text = text.flatMap (escapeLetter quote) := by
  rw [escape, escapeChar, escapeChar, List.flatMap_assoc]
  refine List.flatMap_congr fun l _ => ?_
  have unquoted : Letter.char '\\' ≠ quote := fun same => proper (Letter.char.inj same).symm
  rw [escapeLetter]
  -- A backslash is doubled first, and neither of the two is a quote.
  by_cases backslash : l = '\\'
  · subst backslash
    simp [unquoted]
  · simp [backslash]

/-- A letter is read back from what is written for it. -/
theorem unescape_escapeLetter (quote : Char) (l : Letter) (rest : Text) :
    unescape (escapeLetter quote l ++ rest) = l :: unescape rest := by
  -- A letter that is escaped follows a backslash; any other is no backslash.
  rw [escapeLetter]
  split
  · rfl
  · rename_i plain
    rw [List.singleton_append, unescape.eq_def]
    exact if_neg fun backslash => plain (.inl backslash)

/-- What is written for a letter does not end the text. -/
theorem closingQuote?_escapeLetter (proper : quote ≠ '\\') (l : Letter) (rest : Text) :
    closingQuote? quote (escapeLetter quote l ++ rest) =
      (closingQuote? quote rest).map (· + (escapeLetter quote l).length) := by
  -- The search takes a backslash together with the letter behind it.
  have unquoted : Letter.char '\\' ≠ quote := fun same => proper (Letter.char.inj same).symm
  rw [escapeLetter]
  split
  · change closingQuote? quote (.char '\\' :: l :: rest) = _
    rw [closingQuote?, if_neg unquoted, if_pos rfl]
    rfl
  · rename_i plain
    rw [not_or] at plain
    rw [List.singleton_append, closingQuote?.eq_def]
    exact (if_neg plain.2).trans (if_neg plain.1)

/-- A text is read back from what is written for it. -/
theorem unescape_escape (proper : quote ≠ '\\') (text : Text) :
    unescape (escape quote text) = text := by
  -- Letter by letter.
  rw [escape_eq proper]
  induction text with
  | nil => rfl
  | cons l rest ih => rw [List.flatMap_cons, unescape_escapeLetter, ih]

/-- Whatever follows, a quoted text ends with the quote after it. -/
theorem closingQuote?_escape (proper : quote ≠ '\\') (text rest : Text) :
    closingQuote? quote (escape quote text ++ .char quote :: rest) =
      some (escape quote text).length := by
  rw [escape_eq proper]
  -- No letter ends the text, so the count of what is before the quote adds up.
  induction text with
  | nil =>
    rw [List.flatMap_nil, List.nil_append, closingQuote?.eq_def]
    exact if_pos rfl
  | cons l text ih =>
    rw [List.flatMap_cons, List.append_assoc, closingQuote?_escapeLetter proper, ih,
      Option.map_some, List.length_append, Nat.add_comm]

end Escape

end Text

namespace Tree

/-- A literal is written with one of two quotes. -/
theorem quoteOf_ne (literal : Tree) : literal.quoteOf ≠ '\\' := by
  -- The quote of the literal as read, or the usual one.
  rw [quoteOf]
  split <;> decide

/-- A string literal is written between two quotes of the kind asked for. Whatever text follows, the
second of them is the first quote that no backslash takes with it, and what stands between them is
read as the value of the literal. -/
theorem stringLiteral_closed (literal : Tree) (value : Text) :
    let quote : Letter := literal.quoteOf
    ∃ inner, (stringLiteral literal.quoteOf value).get "raw" = .text (quote :: (inner ++ [quote])) ∧
      (∀ rest, Text.closingQuote? quote (inner ++ quote :: rest) = some inner.length) ∧
      Text.unescape inner = value := by
  -- What stands between the quotes is the escaped value.
  have proper := literal.quoteOf_ne
  exact ⟨Text.escape literal.quoteOf value, rfl, Text.closingQuote?_escape proper value,
    Text.unescape_escape proper value⟩

end Tree

end ModuleLift
