import Mathlib.Data.List.Infix
import ModuleLift.Proofs.Emission.Insertion
import ModuleLift.Text.Word

/-! Text as some reader cuts it into lexemes. Main statements: comments put in where lexemes start
leave the tokens as they are, and tokens with commas between them are split into what each of them
is split into. Nothing here depends on how the reader works. -/

namespace ModuleLift

/-- Whether a text can stand inside a block comment: the comment does not end in it. -/
def NeverCloses (text : Text) : Prop := ¬Text.ofString "*/" <:+: text

instance (text : Text) : Decidable (NeverCloses text) :=
  inferInstanceAs (Decidable ¬Text.ofString "*/" <:+: text)

/-- Whether a text stays on its line. -/
def OnOneLine (text : Text) : Prop := ∀ l ∈ text, Text.isLineEnd l = false

instance (text : Text) : Decidable (OnOneLine text) :=
  inferInstanceAs (Decidable (∀ l ∈ text, Text.isLineEnd l = false))

/-- What text consists of. All but tokens is skipped in reading. -/
inductive Lexeme where
  | blank (text : Text) (space : ∀ l ∈ text, Text.isSpace l || Text.isBlank l)
  | lineComment (body : Text) (single : OnOneLine body)
  | blockComment (body : Text) (inside : NeverCloses body)
  | token (text : Text)

namespace Lexeme

/-- The letters of a lexeme. -/
def text : Lexeme → Text
  | blank text _ => text
  | lineComment body _ => "//" ++ body
  | blockComment body _ => "/*" ++ body ++ "*/"
  | token text => text

/-- The token that a lexeme is, if it is one. -/
def token? : Lexeme → Option Text
  | token text => some text
  | _ => none

end Lexeme

/-- The text that lexemes make up. -/
def spell (lexemes : List Lexeme) : Text := lexemes.flatMap Lexeme.text

/-- The tokens among lexemes. -/
def tokensOf (lexemes : List Lexeme) : List Text := lexemes.filterMap Lexeme.token?

/-- The letters of two lists of lexemes follow each other. -/
@[simp] theorem spell_append (first second : List Lexeme) :
    spell (first ++ second) = spell first ++ spell second :=
  List.flatMap_append

/-- The tokens of two lists of lexemes follow each other. -/
@[simp] theorem tokensOf_append (first second : List Lexeme) :
    tokensOf (first ++ second) = tokensOf first ++ tokensOf second :=
  List.filterMap_append

/-! Commas and brackets. -/

section Splitting

/-- The brackets that commas can stand in. The last is a hole in a template, which the pieces of the
template around it open and close. -/
inductive Bracket where
  | paren
  | square
  | brace
  | hole
deriving DecidableEq, Repr

namespace Bracket

/-- All kinds of brackets. -/
def all : List Bracket := [paren, square, brace, hole]

/-- Whether a token starts with one text and ends with another. -/
def runs (start stop token : Text) : Bool := start.isPrefixOf token && stop.isSuffixOf token

/-- Whether a bracket opens with a token. -/
def opensAt (token : Text) : Bracket → Bool
  | paren => token = "("
  | square => token = "["
  | brace => token = "\x7b"
  | hole => runs "`" "$\x7b" token

/-- Whether a bracket closes with a token. -/
def closesAt (token : Text) : Bracket → Bool
  | paren => token = ")"
  | square => token = "]"
  | brace => token = "\x7d"
  | hole => runs "\x7d" "`" token

/-- The brackets that are open after a token, if it fits the ones before it. -/
def after (opened : List Bracket) (token : Text) : Option (List Bracket) :=
  match all.find? (opensAt token), all.find? (closesAt token) with
  | some b, _ => some (b :: opened)
  | none, some b => if opened.head? = some b then some opened.tail else none
  -- Between two holes the template goes on.
  | none, none =>
    if runs "\x7d" "$\x7b" token && opened.head? ≠ some hole then none else some opened

end Bracket

/-- The comma between arguments. -/
def comma : Text := ","

/-- Puts a token before the first of some parts. -/
def extend (token : Text) : List (List Text) → List (List Text)
  | [] => [[token]]
  | part :: parts => (token :: part) :: parts

/-- Splits tokens at the commas outside of brackets, where some brackets are open before them. -/
def splitArguments : List Bracket → List Text → Option (List (List Text))
  | [], [] => some [[]]
  | _ :: _, [] => none
  | opened, token :: rest =>
    if opened.isEmpty && token = comma then (splitArguments [] rest).map ([] :: ·)
    else (Bracket.after opened token).bind fun opened =>
      (splitArguments opened rest).map (extend token)

/-- The arguments that tokens in parentheses are read as. -/
def argumentsIn (tokens : List Text) : Option (List (List Text)) :=
  if tokens.isEmpty then some [] else splitArguments [] tokens

variable {opened : List Bracket} {tokens more : List Text} {parts others : List (List Text)}

/-- There is always a first part, if only an empty one. -/
theorem splitArguments_ne_nil (known : splitArguments opened tokens = some parts) :
    parts ≠ [] := by
  -- A comma starts another part, any other token goes to the first.
  cases tokens with
  | nil =>
    cases opened <;> cases known
    exact List.cons_ne_nil _ _
  | cons token rest =>
    rw [splitArguments] at known
    split at known
    · obtain ⟨later, _, rfl⟩ := Option.map_eq_some_iff.mp known
      exact List.cons_ne_nil _ _
    · obtain ⟨after, _, later⟩ := Option.bind_eq_some_iff.mp known
      obtain ⟨parts, _, rfl⟩ := Option.map_eq_some_iff.mp later
      cases parts <;> exact List.cons_ne_nil _ _

/-- The parts with the commas between them are the tokens that were split. -/
theorem intercalate_splitArguments (known : splitArguments opened tokens = some parts) :
    [comma].intercalate parts = tokens := by
  induction tokens generalizing opened parts with
  | nil =>
    cases opened <;> cases known
    rfl
  | cons token rest ih =>
    rw [splitArguments] at known
    split at known
    · -- A comma outside of brackets stands between an empty part and the others.
      rename_i outside
      obtain ⟨later, read, rfl⟩ := Option.map_eq_some_iff.mp known
      have separates : token = comma := by
        simpa using (Bool.and_eq_true_iff.mp outside).2
      obtain ⟨first, others, rfl⟩ := List.exists_cons_of_ne_nil (splitArguments_ne_nil read)
      rw [List.intercalate_cons_cons, ih read, separates]
      rfl
    · -- Any other token belongs to the first part.
      obtain ⟨after, _, later⟩ := Option.bind_eq_some_iff.mp known
      obtain ⟨parts, read, rfl⟩ := Option.map_eq_some_iff.mp later
      obtain ⟨first, others, rfl⟩ := List.exists_cons_of_ne_nil (splitArguments_ne_nil read)
      rw [extend, List.intercalate_cons_cons_left, ih read]

/-- A comma after tokens that are split starts the parts of the tokens behind it. -/
theorem splitArguments_append (known : splitArguments opened tokens = some parts)
    (behind : splitArguments [] more = some others) :
    splitArguments opened (tokens ++ comma :: more) = some (parts ++ others) := by
  -- What is open is generalized. Nothing is where the tokens end, so the comma stands outside of
  -- brackets.
  induction tokens generalizing opened parts with
  | nil =>
    cases opened with
    | nil =>
      cases known
      simp [splitArguments, behind]
    | cons b outer => cases known
  | cons token rest ih =>
    rw [List.cons_append, splitArguments]
    rw [splitArguments] at known
    split at known
    · rename_i outside
      rw [if_pos outside]
      obtain ⟨later, read, rfl⟩ := Option.map_eq_some_iff.mp known
      rw [ih read]
      rfl
    · rename_i inside
      rw [if_neg inside]
      obtain ⟨after, here, known⟩ := Option.bind_eq_some_iff.mp known
      obtain ⟨later, read, rfl⟩ := Option.map_eq_some_iff.mp known
      obtain ⟨first, rest, rfl⟩ := List.exists_cons_of_ne_nil (splitArguments_ne_nil read)
      rw [here, Option.bind_some, ih read]
      rfl

section Several

variable {tokenLists : List (List Text)} {partLists : List (List (List Text))}

/-- Tokens of several arguments with commas between them are read as the parts of each. -/
theorem argumentsIn_intercalate
    (each : List.Forall₂ (fun ts parts => splitArguments [] ts = some parts ∧ [] ∉ parts)
      tokenLists partLists) :
    argumentsIn ([comma].intercalate tokenLists) = some partLists.flatten := by
  -- Arguments have tokens in them, so the parentheses are empty only if there are no arguments.
  have filled {ts : List Text} {parts : List (List Text)}
      (known : splitArguments [] ts = some parts) (some : [] ∉ parts) : ts ≠ [] := by
    rintro rfl
    cases known
    exact some List.mem_cons_self
  have whole {ts : List Text} {parts : List (List Text)} {rest : List (List Text)}
      {others : List (List (List Text))}
      (first : splitArguments [] ts = some parts)
      (each : List.Forall₂ (fun ts parts => splitArguments [] ts = some parts ∧ [] ∉ parts)
        rest others) :
      splitArguments [] ([comma].intercalate (ts :: rest)) = some (parts :: others).flatten := by
    induction each generalizing ts parts with
    | nil => simpa using first
    | cons next _ ih =>
      rw [List.intercalate_cons_cons, List.append_assoc, List.flatten_cons]
      exact splitArguments_append first (ih next.1)
  cases each with
  | nil => rfl
  | @cons ts parts rest others first later =>
    have given : ([comma].intercalate (ts :: rest)).isEmpty = false := by
      obtain ⟨token, tokens, rfl⟩ := List.exists_cons_of_ne_nil (filled first.1 first.2)
      rw [List.intercalate_cons_cons_left]
      rfl
    rw [argumentsIn, given]
    exact whole first.1 later

/-- The parts of several arguments are these arguments if and only if each of them is one part. -/
theorem flatten_eq_iff
    (each : List.Forall₂ (fun ts parts => splitArguments [] ts = some parts)
      tokenLists partLists) :
    partLists.flatten = tokenLists ↔ ∀ parts ∈ partLists, parts.length = 1 := by
  -- There are at least as many parts as arguments, so if there are no more, each has one.
  have bounded : tokenLists.length ≤ partLists.flatten.length ∧
      (partLists.flatten.length = tokenLists.length → ∀ parts ∈ partLists, parts.length = 1) := by
    induction each with
    | nil => simp
    | cons known _ ih =>
      have here := List.length_pos_of_ne_nil (splitArguments_ne_nil known)
      simp only [List.flatten_cons, List.length_append, List.length_cons, List.forall_mem_cons]
      exact ⟨by omega, fun same => ⟨by omega, ih.2 (by omega)⟩⟩
  constructor
  · intro same
    exact bounded.2 (congrArg List.length same)
  · intro single
    clear bounded
    induction each with
    | nil => rfl
    | cons known _ ih =>
      obtain ⟨here, later⟩ := List.forall_mem_cons.mp single
      obtain ⟨part, rfl⟩ := List.length_eq_one_iff.mp here
      have joined := intercalate_splitArguments known
      rw [List.intercalate_singleton] at joined
      rw [List.flatten_cons, ih later, joined]
      rfl

end Several

end Splitting

/-! Comments put in. -/

section Insertion

open Emission

/-- The places where lexemes start, from some place on, and where the last of them ends. -/
def edges (start : Nat) : List Lexeme → List Nat
  | [] => [start]
  | lexeme :: rest => start :: edges (start + lexeme.text.length) rest

/-- The first of the places is where the lexemes start. -/
theorem start_mem_edges (start : Nat) (lexemes : List Lexeme) : start ∈ edges start lexemes := by
  cases lexemes <;> exact List.mem_cons_self

/-- No lexeme starts before the first. -/
theorem le_of_mem_edges {start place : Nat} {lexemes : List Lexeme}
    (edge : place ∈ edges start lexemes) : start ≤ place := by
  -- Each lexeme moves the place by its length.
  induction lexemes generalizing start with
  | nil => exact Nat.le_of_eq (List.mem_singleton.mp edge).symm
  | cons lexeme rest ih =>
    rcases List.mem_cons.mp edge with rfl | later
    · exact Nat.le_refl _
    · exact Nat.le_trans (Nat.le_add_right ..) (ih later)

/-- Lexemes are divided where one of them starts, and those behind start at the same places. -/
theorem exists_divided {start place : Nat} {lexemes : List Lexeme}
    (edge : place ∈ edges start lexemes) : ∃ before behind, lexemes = before ++ behind ∧
      start + (spell before).length = place ∧
      ∀ other ∈ edges start lexemes, place ≤ other → other ∈ edges place behind := by
  induction lexemes generalizing start with
  | nil =>
    obtain rfl := List.mem_singleton.mp edge
    exact ⟨[], [], rfl, rfl, fun _ held _ => held⟩
  | cons lexeme rest ih =>
    rcases List.mem_cons.mp edge with rfl | later
    · exact ⟨[], lexeme :: rest, rfl, rfl, fun _ held _ => held⟩
    · obtain ⟨before, behind, rfl, size, others⟩ := ih later
      refine ⟨lexeme :: before, behind, rfl, ?_, fun other held past => ?_⟩
      · rw [← size, spell, List.flatMap_cons, List.length_append, Nat.add_assoc]
        rfl
      · rcases List.mem_cons.mp held with rfl | inner
        · -- The place lies behind the first lexeme, and so at the start only if this is empty.
          have same : place = other := Nat.le_antisymm past
            (Nat.le_trans (Nat.le_add_right ..) (le_of_mem_edges later))
          rw [same]
          exact start_mem_edges ..
        · exact others other inner past

variable {source : Source}

/-- Where texts without tokens are put in between lexemes, the tokens stay. -/
theorem exists_inserted {cursor stop : Nat} {cut : List Lexeme} {insertions : List (Nat × Text)}
    (text : spell cut = slice source cursor stop)
    (ordered : (insertions.map Prod.fst).Pairwise (· ≤ ·))
    (inside : ∀ insertion ∈ insertions, insertion.1 ∈ edges cursor cut ∧ insertion.1 ≤ stop)
    (skipped : ∀ insertion ∈ insertions, ∃ lexemes,
      spell lexemes = insertion.2 ∧ tokensOf lexemes = []) :
    ∃ lexemes, spell lexemes = inserted source cursor stop insertions ∧
      tokensOf lexemes = tokensOf cut := by
  -- Behind an insertion its place is the cursor, and the lexemes behind it are what is left.
  induction insertions generalizing cursor cut with
  | nil => exact ⟨cut, text, rfl⟩
  | cons insertion rest ih =>
    obtain ⟨place, added⟩ := insertion
    obtain ⟨edge, bounded⟩ := inside _ List.mem_cons_self
    obtain ⟨comments, spelled, silent⟩ := skipped _ List.mem_cons_self
    obtain ⟨before, behind, rfl, size, others⟩ := exists_divided edge
    rw [List.map_cons, List.pairwise_cons] at ordered
    have forward : cursor ≤ place := le_of_mem_edges edge
    -- The lexemes before the place make up the stretch up to it.
    rw [spell_append, ← slice_append_slice source forward bounded] at text
    have lengths : (spell before).length = (slice source cursor place).length := by
      have total := congrArg List.length text
      simp only [List.length_append, slice, Array.length_toList, Array.size_extract] at total ⊢
      omega
    obtain ⟨first, second⟩ := List.append_inj text lengths
    obtain ⟨lexemes, woven, tokens⟩ := ih second ordered.2
      (fun other held => ⟨others _ (inside other (List.mem_cons_of_mem _ held)).1
        (ordered.1 _ (List.mem_map_of_mem held)), (inside other (List.mem_cons_of_mem _ held)).2⟩)
      fun other held => skipped other (List.mem_cons_of_mem _ held)
    refine ⟨before ++ (comments ++ lexemes), ?_, ?_⟩
    · rw [spell_append, spell_append, first, spelled, woven, inserted, List.append_assoc]
    · rw [tokensOf_append, tokensOf_append, silent, tokens, tokensOf_append, List.nil_append]

/-- Whether a text can be put into a comment of either sort. -/
def IsRemark (text : Text) : Prop := OnOneLine text ∧ NeverCloses text

instance (text : Text) : Decidable (IsRemark text) := by
  unfold IsRemark
  infer_instance

/-- Blanks around a text do not close a comment. -/
theorem neverCloses_padded {text : Text} (inside : NeverCloses text) :
    NeverCloses (" " ++ text ++ " ") := by
  rintro ⟨before, after, whole⟩
  -- Neither letter is a blank, so both stand in the text.
  cases before with
  | nil => exact absurd (List.cons.inj whole).1 (by decide)
  | cons blank before =>
    have rest : before ++ Text.ofString "*/" ++ after = text ++ " " := (List.cons.inj whole).2
    rcases List.eq_nil_or_concat after with rfl | ⟨after, last, rfl⟩
    · have ends := congrArg List.getLast? rest
      rw [List.append_nil, List.getLast?_append, List.getLast?_append] at ends
      exact absurd (Option.some.inj ends) (by decide)
    · rw [List.concat_eq_append, ← List.append_assoc] at rest
      exact inside ⟨before, after, (List.append_inj' rest rfl).1⟩

/-- A comment before a node is skipped in reading. -/
theorem exists_commentText {indent : Option Text} {text : Text} (remark : IsRemark text)
    (blank : ∀ space ∈ indent, ∀ l ∈ space, Text.isSpace l) :
    ∃ lexemes, spell lexemes = commentText indent text ∧ tokensOf lexemes = [] := by
  -- On a line of its own a comment ends with the line; between tokens it is closed.
  cases indent with
  | some indent =>
    have single : OnOneLine (" " ++ text) := by
      intro l held
      rcases List.mem_append.mp held with first | later
      · rw [List.mem_singleton.mp first]
        rfl
      · exact remark.1 l later
    have space : ∀ l ∈ ("\n" : Text) ++ indent, Text.isSpace l || Text.isBlank l := by
      intro l held
      rcases List.mem_append.mp held with first | later
      · rw [List.mem_singleton.mp first]
        rfl
      · rw [blank indent rfl l later, Bool.true_or]
    have start : Text.ofString "// " = "//" ++ " " := rfl
    refine ⟨[.lineComment _ single, .blank _ space], ?_, rfl⟩
    simp [spell, Lexeme.text, commentText, start]
  | none =>
    have space : ∀ l ∈ (" " : Text), Text.isSpace l || Text.isBlank l := by decide
    have start : Text.ofString "/* " = "/*" ++ " " := rfl
    have stop : Text.ofString " */ " = " " ++ ("*/" ++ " ") := rfl
    refine ⟨[.blockComment _ (neverCloses_padded remark.2), .blank _ space], ?_, rfl⟩
    simp [spell, Lexeme.text, commentText, start, stop]

/-- The comments before a node are skipped in reading. -/
theorem exists_commentsBefore {t : Tree} (remarks : ∀ text ∈ t.mark.comments, IsRemark text) :
    ∃ lexemes, spell lexemes = commentsBefore source t ∧ tokensOf lexemes = [] := by
  rw [commentsBefore]
  split
  · exact ⟨[], rfl, rfl⟩
  · -- An indent is white space, or it is not repeated.
    have blank : ∀ indent ∈ t.region?.bind fun r => indentAt source r.start,
        ∀ l ∈ indent, Text.isSpace l := by
      intro indent found
      obtain ⟨region, _, found⟩ := Option.bind_eq_some_iff.mp found
      simp only [indentAt] at found
      split at found
      · rename_i spaces
        cases found
        exact List.all_eq_true.mp spaces
      · cases found
    generalize t.region?.bind _ = indent at blank
    generalize t.mark.comments = comments at remarks
    induction comments with
    | nil => exact ⟨[], rfl, rfl⟩
    | cons text rest ih =>
      obtain ⟨here, later⟩ := List.forall_mem_cons.mp remarks
      obtain ⟨lexemes, spelled, silent⟩ := exists_commentText here blank
      obtain ⟨others, spelledOthers, silentOthers⟩ := ih later
      refine ⟨lexemes ++ others, ?_, ?_⟩
      · rw [spell_append, spelled, spelledOthers, List.flatMap_cons]
      · rw [tokensOf_append, silent, silentOthers, List.nil_append]

end Insertion

end ModuleLift
