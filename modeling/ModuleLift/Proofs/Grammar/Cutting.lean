import ModuleLift.Grammar.Unit
import Mathlib.Tactic.Common

/-! Cutting the tokens of a text that is known: after blanks, a word without escapes is cut up to
the letter that ends it, and a punctuator of one letter by itself. -/

namespace ModuleLift.Grammar

open ModuleLift.Text

variable {σ ε α β ι : Type}

section Run

/-- A step comes to an answer, and its answer and the state it leaves meet a condition. -/
def Yields (step : StateT σ (Except ε) α) (s : σ) (post : α → σ → Prop) : Prop :=
  ∃ a t, step.run s = .ok (a, t) ∧ post a t

/-- What follows a step that was taken goes on from its answer. -/
theorem run_bind {step : StateT σ (Except ε) α} {next : α → StateT σ (Except ε) β} {s t : σ}
    {a : α} {r : Except ε (β × σ)} (ran : step.run s = .ok (a, t)) (go : (next a).run t = r) :
    (step >>= next).run s = r := by
  -- The step ends in the state that the next one starts from.
  rw [StateT.run_bind, ran]
  exact go

namespace Yields

variable {step : StateT σ (Except ε) α} {next : α → StateT σ (Except ε) β} {s t : σ} {a : α}

/-- A step that comes to an answer is followed by one that does. -/
theorem bind {mid : α → σ → Prop} {post : β → σ → Prop} (first : Yields step s mid)
    (later : ∀ a t, mid a t → Yields (next a) t post) : Yields (step >>= next) s post := by
  -- The answer of the first is what the second is told about.
  obtain ⟨a, t, ran, met⟩ := first
  obtain ⟨b, u, went, reached⟩ := later a t met
  exact ⟨b, u, run_bind ran went, reached⟩

/-- A step whose answer is known is followed by one that comes to an answer. -/
theorem after {post : β → σ → Prop} (ran : step.run s = .ok (a, t))
    (later : Yields (next a) t post) : Yields (step >>= next) s post := by
  -- Nothing has to be remembered of the first but its answer and its state.
  obtain ⟨b, u, went, reached⟩ := later
  exact ⟨b, u, run_bind ran went, reached⟩

/-- A choice between two steps comes before what follows them both. -/
theorem ite_bind {choice : Prop} [Decidable choice] {step' : StateT σ (Except ε) α}
    {mid : α → σ → Prop} {post : β → σ → Prop}
    (chosen : Yields (if choice then step else step') s mid)
    (later : ∀ a t, mid a t → Yields (next a) t post) :
    Yields (if choice then step >>= next else step' >>= next) s post := by
  -- Whichever step was chosen is the one that comes to an answer.
  split at chosen
  · rw [if_pos ‹_›]
    exact chosen.bind later
  · rw [if_neg ‹_›]
    exact chosen.bind later

/-- What is known of an answer can be weakened. -/
theorem mono {post weaker : α → σ → Prop} (yields : Yields step s post)
    (weaken : ∀ a t, post a t → weaker a t) : Yields step s weaker := by
  -- The answer stays the same.
  obtain ⟨a, t, ran, met⟩ := yields
  exact ⟨a, t, ran, weaken a t met⟩

end Yields

/-- A step that yields an answer ends the repetition. -/
theorem repeatBounded_last {step : ι → StateT σ (Except Fault) (ι ⊕ α)} {bound : Nat} {state : ι}
    {s t : σ} {a : α} (ran : (step state).run s = .ok (.inr a, t)) :
    (repeatBounded (bound + 1) state step).run s = .ok (a, t) :=
  run_bind ran rfl

end Run

section Gap

/-- A letter that no gap takes along. -/
def endsGap (l : Letter) : Bool := !isBlank l && !isLineEnd l && l ≠ '/' && l ≠ '-' && l ≠ '<'

/-- A gap ends before a letter that cannot be in one. -/
theorem skipGap_stop (markup first : Bool) {stop : Letter} (ends : endsGap stop) (rest : Text)
    (offset line lineStart : Nat) :
    skipGap markup (.blanks first) (stop :: rest) offset line lineStart =
      { cursor := { rest := stop :: rest, offset, line, lineStart } } := by
  -- The letter starts no comment and ends no line, so no rule goes on.
  simp only [endsGap, Bool.and_eq_true, Bool.not_eq_true', decide_eq_true_eq] at ends
  obtain ⟨⟨⟨⟨blank, lineEnd⟩, slash⟩, dash⟩, angle⟩ := ends
  have noReturn : stop ≠ .char '\r' := by
    rintro rfl
    exact absurd lineEnd (by decide)
  rw [skipGap.eq_def]
  split <;> simp_all

/-- Only blanks and newlines. -/
def AllSpace (text : Text) : Prop := ∀ l ∈ text, l = .char ' ' ∨ l = .char '\n'

/-- Nothing is all space. -/
theorem allSpace_nil : AllSpace [] := fun _ held => absurd held List.not_mem_nil

/-- A blank is all space. -/
theorem allSpace_blank : AllSpace [.char ' '] := fun _ held => .inl (List.mem_singleton.mp held)

/-- Spaces after spaces are all space. -/
theorem AllSpace.append {blanks more : Text} (spaces : AllSpace blanks) (others : AllSpace more) :
    AllSpace (blanks ++ more) :=
  fun l held => (List.mem_append.mp held).elim (spaces l) (others l)

/-- A gap of blanks and newlines is skipped. -/
theorem skipGap_blanks (markup : Bool) {blanks rest : Text} {stop : Letter}
    (spaces : AllSpace blanks) (ends : endsGap stop) (first : Bool) (offset line lineStart : Nat) :
    ∃ cursor, skipGap markup (.blanks first) (blanks ++ stop :: rest) offset line lineStart =
      { cursor } ∧ cursor.rest = stop :: rest := by
  -- A blank moves on in the line, a newline to the next.
  induction blanks generalizing first offset line lineStart with
  | nil => exact ⟨_, skipGap_stop markup first ends rest offset line lineStart, rfl⟩
  | cons blank blanks ih =>
    have later := ih fun l held => spaces l (List.mem_cons_of_mem _ held)
    rw [List.cons_append, skipGap.eq_def]
    rcases spaces blank List.mem_cons_self with rfl | rfl
    · exact later first (offset + 1) line lineStart
    · exact later true (offset + 1) (line + 1) (offset + 1)

end Gap

/-- A word written without escapes. -/
def isWord : Text → Bool
  | [] => false
  | first :: more => startsWord first && first ≠ '\\' &&
      more.all fun (l : Letter) => continuesWord l && l ≠ '\\'

/-- The class of a word. -/
def wordKind (name : Text) : TokenKind :=
  if isKeyword name then .keyword
  else if name = "null" then .null
  else if name = "true" || name = "false" then .boolean
  else .identifier

/-- The code points of blanks and line ends. -/
def spaceCodes : List Nat :=
  [0x09, 0x0a, 0x0b, 0x0c, 0x0d, 0x20, 0xa0, 0x1680, 0x180e, 0x2000, 0x2001, 0x2002, 0x2003,
    0x2004, 0x2005, 0x2006, 0x2007, 0x2008, 0x2009, 0x200a, 0x2028, 0x2029, 0x202f, 0x205f,
    0x3000, 0xfeff]

/-- Blanks and line ends have one of these codes. -/
theorem code_mem_spaceCodes {l : Letter} (space : isBlank l ∨ isLineEnd l) :
    l.code ∈ spaceCodes := by
  have code : ∀ c, l = .char c → l.code = c.toNat := by
    rintro c rfl
    rfl
  simp only [isBlank, isLineEnd, Bool.or_eq_true, Bool.and_eq_true, decide_eq_true_eq] at space
  -- Blanks and line ends are told by their code, apart from the four that are told by their
  -- character.
  have blank := code ' '
  have tab := code '\t'
  have feed := code '\n'
  have back := code '\r'
  simp only [spaceCodes, List.mem_cons, List.not_mem_nil, or_false]
  grind -linarith

/-- A word starts behind a gap. -/
theorem endsGap_of_startsWord {l : Letter} (starts : startsWord l) : endsGap l := by
  -- What starts a word is known for every letter, but only the codes of space have to be gone
  -- through.
  have table : ∀ n ∈ spaceCodes, startsWord (.ofCode n) = false := by decide +kernel
  have space : ¬(isBlank l ∨ isLineEnd l) := by
    intro space
    have none := table l.code (code_mem_spaceCodes space)
    rw [Letter.ofCode_code, starts] at none
    cases none
  have other : ∀ c ∈ ['/', '-', '<'], l ≠ .char c := by
    have none : ['/', '-', '<'].all fun c => !startsWord (.char c) := by decide
    rintro c held rfl
    have noStart := List.all_eq_true.mp none c held
    rw [starts] at noStart
    cases noStart
  rw [not_or, Bool.not_eq_true, Bool.not_eq_true] at space
  simp [endsGap, space, other]

/-- The scanner some letters further on. -/
def Scanner.passed (s : Scanner) (count : Nat) : Scanner :=
  { s with cursor := s.cursor.advance count }

/-- A scanner that lets errors pass stands before a text, outside of any template. -/
structure Scanner.Before (text : Text) (size : Nat) (s : Scanner) : Prop where
  rest : s.cursor.rest = text
  lenient : s.lenient = true
  size : s.size = size
  outside : true ∉ s.braces

namespace Scan

variable {s : Scanner} {name rest : Text} {stop : Letter}

/-- Letters of a class are taken up to the first that is not in it. -/
theorem takeWhile_run {test : Letter → Bool} {taken : Text} (all : ∀ l ∈ taken, test l)
    (stops : test stop = false) (before : s.cursor.rest = taken ++ stop :: rest) :
    (takeWhile test).run s = .ok (taken, s.passed taken.length) := by
  -- What is taken is told by the text before the cursor.
  have same : s.cursor.rest.takeWhile test = taken := by
    rw [before, List.takeWhile_append_of_pos all, List.takeWhile_cons_of_neg (by simp [stops]),
      List.append_nil]
  have ran : (takeWhile test).run s = .ok (s.cursor.rest.takeWhile test,
      s.passed (s.cursor.rest.takeWhile test).length) := rfl
  rwa [same] at ran

/-- A word is read up to the letter that ends it. -/
theorem word_run (isWord : isWord name) (stops : continuesWord stop = false)
    (before : s.cursor.rest = name ++ stop :: rest) :
    word.run s = .ok (name, s.passed name.length) := by
  cases name with
  | nil => cases isWord
  | cons first more =>
    rw [Grammar.isWord, Bool.and_eq_true, Bool.and_eq_true, List.all_eq_true] at isWord
    obtain ⟨⟨starts, plain⟩, continues⟩ := isWord
    have noEscape : stop ≠ .char '\\' := by
      rintro rfl
      exact absurd stops (by decide)
    -- The first letter is taken by itself, all others in one stretch.
    have head : next.run s = .ok (first, s.passed 1) := by
      have letter : s.cursor.peek = first := by rw [Cursor.peek, Cursor.peekAt, before]; rfl
      rw [← letter]
      rfl
    have stretch : (takeWhile fun (c : Letter) => c ≠ '\\' && continuesWord c).run (s.passed 1) =
        .ok (more, s.passed (first :: more).length) := by
      have behind : (s.passed 1).cursor.rest = more ++ stop :: rest := by
        rw [Scanner.passed, Cursor.advance, before]
        rfl
      have further : (s.passed 1).passed more.length = s.passed (first :: more).length := by
        simp [Scanner.passed, Cursor.advance, Nat.add_comm, Nat.add_left_comm]
      rw [← further]
      refine takeWhile_run (fun l held => ?_) (by simp [stops]) behind
      simpa [and_comm] using continues l held
    have ended : peek.run (s.passed (first :: more).length) =
        .ok (stop, s.passed (first :: more).length) := by
      have ahead : (s.passed (first :: more).length).cursor.peek = stop := by
        rw [Scanner.passed, Cursor.peek, Cursor.peekAt, Cursor.advance, before, List.drop_left]
        rfl
      rw [← ahead]
      rfl
    refine run_bind head ?_
    rw [if_neg (by simpa using plain), pure_bind]
    refine run_bind (a := (more.map Letter.code).reverse ++ [first.code])
      (t := s.passed (first :: more).length)
      (run_bind rfl (repeatBounded_last (run_bind stretch (run_bind ended ?_)))) ?_
    · rw [if_neg noEscape]
      rfl
    · -- A letter is known by its code point.
      have letters : ((more.map Letter.code).reverse ++ [first.code]).reverse.map Letter.ofCode =
          first :: more := by
        simp [Function.comp_def, Letter.ofCode_code]
      rw [letters]
      rfl

/-- The token that is cut from the start of a text, and what is left behind it. -/
def Takes (text : Text) (kind : TokenKind) (value rest : Text) : Prop :=
  ∀ size s, s.Before text size → Yields anyToken s fun token s' =>
    token.kind = kind ∧ token.value = value ∧ s'.Before rest size

/-- A word starts with a letter that words start with. -/
theorem startsWord_of_isWord {first : Letter} {more : Text} (isWord : isWord (first :: more)) :
    startsWord first := by
  -- This is the first thing that is asked of a word.
  rw [Grammar.isWord, Bool.and_eq_true, Bool.and_eq_true] at isWord
  exact isWord.1.1

/-- A word is cut up to the letter that ends it. -/
theorem takes_word (isWord : isWord name) (stops : continuesWord stop = false) :
    Takes (name ++ stop :: rest) (wordKind name) name (stop :: rest) := by
  intro size s before
  have read := word_run isWord stops before.rest
  have some_ : ¬s.cursor.atEnd := by simp [Cursor.atEnd, before.rest]
  have starts : startsWord s.cursor.peek := by
    cases name with
    | nil => cases isWord
    | cons first more =>
      rw [Cursor.peek, Cursor.peekAt, before.rest]
      exact startsWord_of_isWord isWord
  -- The word is as long as its text, so no escape is complained of.
  have whole : ¬(wordKind name != .identifier &&
      decide (s.cursor.offset + name.length ≠ (s.passed name.length).cursor.offset)) := by
    simp [Scanner.passed, Cursor.advance]
  have behind : (s.passed name.length).Before (stop :: rest) size := by
    refine ⟨?_, before.lenient, before.size, before.outside⟩
    rw [Scanner.passed, Cursor.advance, before.rest, List.drop_left]
  rw [anyToken]
  refine .after rfl ?_
  rw [if_neg some_, if_pos starts]
  refine .after rfl (.after read (.after rfl ?_))
  rw [← wordKind, if_neg whole]
  exact ⟨_, _, rfl, rfl, rfl, behind⟩

/-- The punctuators of one letter that no longer one starts with. -/
def lonePunctuators : List Char := ['\x7b', '\x7d', ',', ';']

/-- A punctuator that stands alone starts no longer one. -/
theorem find?_longPunctuators {c : Char} (lone : c ∈ lonePunctuators) (rest : Text) :
    (longPunctuators.find? fun p => Text.startsWith p (.char c :: rest)) = none := by
  -- No long punctuator has such a letter in front.
  have heads : longPunctuators.all fun p =>
      lonePunctuators.all fun c => p.head?.any (· ≠ .char c) := by decide
  refine List.find?_eq_none.mpr fun p held starts => ?_
  have head := List.all_eq_true.mp (List.all_eq_true.mp heads p held) c lone
  cases p with
  | nil => cases head
  | cons first more =>
    rw [Text.startsWith, List.isPrefixOf_cons_cons, Bool.and_eq_true, beq_iff_eq] at starts
    simp [starts.1] at head

/-- A lone punctuator is cut by itself. -/
theorem takes_punctuator {c : Char} (lone : c ∈ lonePunctuators) (rest : Text) :
    Takes (.char c :: rest) .punctuator [.char c] rest := by
  intro size s before
  have some_ : ¬s.cursor.atEnd := by simp [Cursor.atEnd, before.rest]
  have letter : s.cursor.peek = .char c := by rw [Cursor.peek, Cursor.peekAt, before.rest]; rfl
  have none : (longPunctuators.find? fun p => Text.startsWith p s.cursor.rest) = none := by
    rw [before.rest]
    exact find?_longPunctuators lone rest
  have other : lonePunctuators.all fun c => decide (startsWord (.char c) = false ∧
      ¬(Letter.char c = '\'' || Letter.char c = '"') ∧ (Letter.char c).isDigit = false ∧ c ≠ '.' ∧
      c ≠ '`' ∧ shortPunctuators.contains (.char c)) := by decide
  obtain ⟨noWord, noQuote, noDigit, noDot, noTemplate, known⟩ :=
    of_decide_eq_true (List.all_eq_true.mp other c lone)
  have noHole : ¬(decide (Letter.char c = '`') ||
      (decide (Letter.char c = '\x7d') && s.braces.head? == some true)) := by
    have outside : s.braces.head? ≠ some true := fun first =>
      before.outside (List.mem_of_mem_head? first)
    simp [noTemplate, outside]
  -- Braces are counted; none of them is one of a template.
  have last : ∀ braces, true ∉ braces →
      Yields (do skip 1; token s.cursor .punctuator [.char c]) { s with braces } fun token s' =>
        token.kind = .punctuator ∧ token.value = [.char c] ∧ s'.Before rest size := by
    refine fun braces outside => ⟨_, _, rfl, rfl, rfl, ?_, before.lenient, before.size, outside⟩
    exact congrArg (List.drop 1) before.rest
  have fewer : ∀ braces : List Bool, true ∉ braces → true ∉ braces.drop 1 :=
    fun braces outside held => outside (List.mem_of_mem_drop held)
  have more : true ∉ false :: s.braces := by simp [before.outside]
  rw [anyToken]
  refine .after rfl ?_
  rw [if_neg some_, letter, if_neg (by simp [noWord]), if_neg noQuote,
    if_neg (by simp [noDigit, noDot])]
  refine .after (a := s) (t := s) rfl ?_
  rw [if_neg noHole, punctuatorToken]
  refine .after rfl ?_
  simp only [none, letter, known, some_, Bool.not_false, Bool.and_true, if_true]
  split
  · refine .after rfl ?_
    split
    · exact .after rfl (last _ (fewer _ more))
    · exact last _ more
  · split
    · exact .after rfl (last _ (fewer _ before.outside))
    · exact last _ before.outside

end Scan

/-- A text opens with a token behind a gap: its class, its value, and what is left behind it. -/
def Opens (text : Text) (kind : TokenKind) (value rest : Text) : Prop :=
  ∃ blanks stop more, text = blanks ++ stop :: more ∧ AllSpace blanks ∧ endsGap stop ∧
    Scan.Takes (stop :: more) kind value rest

/-- A text that starts with a word opens with it. -/
theorem opens_word {blanks name : Text} {stop : Letter} (spaces : AllSpace blanks)
    (word : isWord name) (stops : continuesWord stop = false) (rest : Text) :
    Opens (blanks ++ (name ++ stop :: rest)) (wordKind name) name (stop :: rest) := by
  -- Where a word starts a gap ends.
  cases name with
  | nil => cases word
  | cons first more =>
    exact ⟨blanks, first, more ++ stop :: rest, rfl, spaces,
      endsGap_of_startsWord (Scan.startsWord_of_isWord word), Scan.takes_word word stops⟩

/-- A text that starts with a punctuator that stands alone opens with it. -/
theorem opens_punctuator {blanks : Text} {c : Char} (spaces : AllSpace blanks)
    (lone : c ∈ Scan.lonePunctuators) (rest : Text) :
    Opens (blanks ++ .char c :: rest) .punctuator [.char c] rest := by
  -- Where such a punctuator stands a gap ends.
  have ends : Scan.lonePunctuators.all fun c => endsGap (.char c) := by decide
  exact ⟨blanks, .char c, rest, rfl, spaces, List.all_eq_true.mp ends c lone,
    Scan.takes_punctuator lone rest⟩

end ModuleLift.Grammar

