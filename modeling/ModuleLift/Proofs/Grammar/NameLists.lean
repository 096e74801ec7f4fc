import ModuleLift.ExportMap
import ModuleLift.Proofs.Emission.Recovery
import ModuleLift.Proofs.Grammar.Cutting

/-! Reading the lists of names that are printed in imports and exports. The rules of the grammar
read each entry as the two names that were printed, without the newline that a name may end in: to
the reader it is a gap. -/

namespace ModuleLift.Grammar

open ModuleLift.Text Emission

/-- The newline at the end of a text, if it has one. -/
def finalNewline (text : Text) : Text :=
  if text.getLast? = some (.char '\n') then [.char '\n'] else []

/-- A text is what is left without its last newline, and that newline. -/
theorem dropFinalNewline_append (text : Text) :
    dropFinalNewline text ++ finalNewline text = text := by
  -- Where there is none, nothing was taken away.
  rw [dropFinalNewline, finalNewline]
  split
  · rename_i last
    exact List.dropLast_append_getLast? _ last
  · exact List.append_nil text

/-- A newline at the end is space. -/
theorem allSpace_finalNewline (text : Text) : AllSpace (finalNewline text) := by
  -- There is at most the newline.
  intro l held
  rw [finalNewline] at held
  split at held
  · exact .inr (List.mem_singleton.mp held)
  · cases held

/-- A name is cut without the newline at its end. -/
theorem opens_name {blanks name : Text} {stop : Letter} (spaces : AllSpace blanks)
    (word : isWord (dropFinalNewline name)) (stops : continuesWord stop = false) (rest : Text) :
    Opens (blanks ++ (name ++ stop :: rest)) (wordKind (dropFinalNewline name))
      (dropFinalNewline name) (finalNewline name ++ stop :: rest) := by
  -- The newline ends the word as well as what comes after it would.
  have text : name ++ stop :: rest =
      dropFinalNewline name ++ (finalNewline name ++ stop :: rest) := by
    rw [← List.append_assoc, dropFinalNewline_append]
  rw [text, finalNewline]
  split
  · exact opens_word spaces word (by decide) _
  · exact opens_word spaces word stops _

section Entries

/-- The text behind an entry of a list, up to the end. -/
def afterEntry (tail : Text) : List (Text × Text) → Text
  | [] => .char ' ' :: .char '\x7d' :: tail
  | (name, other) :: more =>
    .char ',' :: .char ' ' :: (aliasText name other ++ afterEntry tail more)

/-- The text behind the first name of an entry. -/
def afterName (name other rest : Text) : Text :=
  finalNewline name ++ if name = other then rest else " as " ++ (other ++ rest)

/-- The punctuator behind an entry. -/
def closing : List (Text × Text) → Text
  | [] => [.char '\x7d']
  | _ :: _ => [.char ',']

/-- The text behind the punctuator behind an entry. -/
def behind (tail : Text) : List (Text × Text) → Text
  | [] => tail
  | (name, other) :: more => .char ' ' :: (aliasText name other ++ afterEntry tail more)

variable {tail name other : Text} {more : List (Text × Text)}

/-- Behind an entry stands a letter that no word goes on with. -/
theorem afterEntry_stops (tail : Text) (more : List (Text × Text)) :
    ∃ stop rest, afterEntry tail more = stop :: rest ∧ continuesWord stop = false := by
  -- It is a blank before the brace, or a comma.
  cases more with
  | nil => exact ⟨_, _, rfl, by decide⟩
  | cons pair more => exact ⟨_, _, rfl, by decide⟩

/-- Behind an entry comes the punctuator that closes it. -/
theorem opens_afterEntry {blanks : Text} (spaces : AllSpace blanks) (tail : Text)
    (more : List (Text × Text)) :
    Opens (blanks ++ afterEntry tail more) .punctuator (closing more) (behind tail more) := by
  -- The blank before the brace is part of the gap.
  cases more with
  | nil =>
    rw [afterEntry, List.append_cons]
    exact opens_punctuator (spaces.append allSpace_blank) (by decide) tail
  | cons pair more => exact opens_punctuator spaces (by decide) _

/-- An entry opens with its first name. -/
theorem opens_entry {blanks : Text} (spaces : AllSpace blanks)
    (word : isWord (dropFinalNewline name)) (other tail : Text) (more : List (Text × Text)) :
    Opens (blanks ++ (aliasText name other ++ afterEntry tail more))
      (wordKind (dropFinalNewline name)) (dropFinalNewline name)
      (afterName name other (afterEntry tail more)) := by
  -- Either the entry ends with this name, or a blank comes after it.
  rw [aliasText, afterName]
  split
  · obtain ⟨stop, rest, text, stops⟩ := afterEntry_stops tail more
    rw [text]
    exact opens_name spaces word stops rest
  · rw [List.append_assoc, List.append_assoc]
    exact opens_name spaces word (by decide) _

/-- Behind its first name an entry has the word before the other one, if that is written. -/
theorem opens_afterName (differ : name ≠ other) (rest : Text) :
    Opens (afterName name other rest) .identifier "as" (.char ' ' :: (other ++ rest)) := by
  -- A newline of the first name and the blank are one gap.
  have opens := opens_word ((allSpace_finalNewline name).append allSpace_blank)
    (show isWord (ofString "as") by decide) (show continuesWord (.char ' ') = false by decide)
    (other ++ rest)
  rw [List.append_assoc] at opens
  rw [afterName, if_neg differ]
  exact opens

/-- The other name of an entry. -/
theorem opens_other (word : isWord (dropFinalNewline other)) (tail : Text)
    (more : List (Text × Text)) :
    Opens (.char ' ' :: (other ++ afterEntry tail more)) (wordKind (dropFinalNewline other))
      (dropFinalNewline other) (finalNewline other ++ afterEntry tail more) := by
  -- One blank is before it, and no word goes on behind it.
  obtain ⟨stop, rest, text, stops⟩ := afterEntry_stops tail more
  rw [text]
  exact opens_name allSpace_blank word stops rest

/-- Behind an entry with one name comes a punctuator. -/
theorem opens_afterSame (name tail : Text) (more : List (Text × Text)) :
    Opens (afterName name name (afterEntry tail more)) .punctuator (closing more)
      (behind tail more) := by
  -- Only the newline of the name can be in between.
  rw [afterName, if_pos rfl]
  exact opens_afterEntry (allSpace_finalNewline name) tail more

end Entries

/-- The class of a token in strict code, which has more keywords. -/
def strictKind (kind : TokenKind) (value : Text) : TokenKind :=
  if kind == .identifier && isStrictReserved value then .keyword else kind

/-- The class of a word in strict code. -/
def nameKind (name : Text) : TokenKind := strictKind (wordKind name) name

/-- A name that strict code can bind. -/
def isBindable (name : Text) : Bool := isWord name && nameKind name == .identifier

/-- A node is a name. -/
def IsName (name : Text) (t : Tree) : Prop := t.isNull = false ∧ t.name = name

/-- The two names of an entry that was read. -/
def entryNames (first second : String) (entry : Tree) : Text × Text :=
  ((entry.get first).name, (entry.get second).name)

/-- The two names that an entry is read as. -/
def shownPair (pair : Text × Text) : Text × Text :=
  (dropFinalNewline pair.1, dropFinalNewline pair.2)

/-- The next token of strict reading, and what is left behind it. -/
structure ParseState.Sees (kind : TokenKind) (value rest : Text) (size : Nat) (s : ParseState) :
    Prop where
  kind : s.lookahead.kind = kind
  value : s.lookahead.value = value
  before : s.scanner.Before rest size
  strict : s.context.isStrict = true

/-- Reading stands before what is left of a list of entries. -/
def ParseState.At (tail : Text) (size : Nat) : List (Text × Text) → ParseState → Prop
  | [], s => s.Sees .punctuator [.char '\x7d'] tail size
  | (name, other) :: more, s => s.Sees (nameKind (dropFinalNewline name)) (dropFinalNewline name)
      (afterName name other (afterEntry tail more)) size

namespace Parse

variable {s : ParseState} {text rest value value' : Text} {kind kind' : TokenKind} {size : Nat}

/-- A step of the scanner is one of the reader that leaves all else alone. -/
theorem scan_yields {α : Type} {step : Scan α} {post : α → Scanner → Prop}
    (yields : Yields step s.scanner post) :
    Yields (scan step) s fun a t => post a t.scanner ∧ t = { s with scanner := t.scanner } := by
  -- The reader lends its scanner to the step and takes it back.
  obtain ⟨a, scanner, ran, met⟩ := yields
  refine ⟨a, { s with scanner }, ?_, met, rfl⟩
  refine run_bind (a := s) (t := s) rfl ?_
  refine run_bind (a := (a, scanner)) (t := s) ?_ rfl
  exact congrArg (fun outcome => outcome >>= fun reached => pure (reached, s)) ran

/-- The next token is what the text opens with. -/
theorem refill_yields (opens : Opens text kind value rest) (before : s.scanner.Before text size)
    (lastLine : Nat) :
    Yields (refill lastLine) s fun _ t => t.scanner.Before rest size ∧
      t.lookahead.kind = (if s.context.isStrict then strictKind kind value else kind) ∧
      t.lookahead.value = value ∧ t.context = s.context := by
  obtain ⟨blanks, stop, more, rfl, spaces, ends, takes⟩ := opens
  have gap : Yields Scan.gap s.scanner fun _ t => t.Before (stop :: more) size := by
    obtain ⟨cursor, skips, left⟩ : ∃ cursor, s.scanner.cursor.skipGap (!s.scanner.isModule) =
        { cursor } ∧ cursor.rest = stop :: more := by
      rw [Cursor.skipGap, before.rest]
      exact skipGap_blanks _ spaces ends ..
    refine .after (a := s.scanner.cursor) (t := s.scanner) rfl ?_
    refine .after (a := s.scanner) (t := s.scanner) rfl ?_
    rw [skips]
    exact ⟨_, _, rfl, left, before.lenient, before.size, before.outside⟩
  refine (scan_yields gap).bind fun _ t reached => ?_
  obtain ⟨here, kept⟩ := reached
  refine .after (a := t.scanner.cursor) (t := t) rfl ?_
  refine (scan_yields (takes size t.scanner here)).bind fun token u cut => ?_
  obtain ⟨⟨isKind, isValue, behind⟩, after⟩ := cut
  have same : u.context = s.context := by rw [after, kept]
  refine ⟨_, _, rfl, behind, ?_, ?_, same⟩
  · -- Strict code turns some names into keywords.
    change (if (u.context.isStrict && token.kind == .identifier && isStrictReserved token.value)
      then { token with kind := .keyword } else token).kind = _
    rw [apply_ite Token.kind, same, isKind, isValue]
    cases s.context.isStrict <;> rfl
  · change (if (u.context.isStrict && token.kind == .identifier && isStrictReserved token.value)
      then { token with kind := .keyword } else token).value = _
    split <;> exact isValue

/-- The token that was seen is handed out, and the next one is seen. -/
theorem nextToken_yields (sees : s.Sees kind value text size)
    (opens : Opens text kind' value' rest) :
    Yields nextToken s fun token t =>
      token = s.lookahead ∧ t.Sees (strictKind kind' value') value' rest size := by
  -- The token returned is the one seen before. What is seen next is what the text opens with.
  refine .after (a := s.lookahead) (t := s) rfl ?_
  refine .after rfl ?_
  refine (refill_yields opens (by exact sees.before) _).bind fun _ t reached => ?_
  obtain ⟨before, isKind, isValue, same⟩ := reached
  have strict : t.context.isStrict = true := by
    rw [same]
    exact sees.strict
  refine ⟨_, _, rfl, rfl, ?_, isValue, before, strict⟩
  rw [isKind]
  exact if_pos sees.strict

/-- A word of any kind can be a name. -/
theorem isAnyName_of_kind {token : Token} (isKind : token.kind = nameKind value) :
    token.isAnyName := by
  -- A word is a keyword, a literal or an identifier.
  rw [Token.isAnyName, isKind, nameKind, strictKind, wordKind]
  split
  · rfl
  · split
    · rfl
    · split
      · rfl
      · split <;> rfl

/-- Any word is read as a name. -/
theorem identifierName_yields (sees : s.Sees (nameKind value) value text size)
    (opens : Opens text kind' value' rest) :
    Yields identifierName s fun t s' =>
      IsName value t ∧ s'.Sees (strictKind kind' value') value' rest size := by
  -- What is seen is a word, so it is taken.
  refine .after rfl ?_
  refine (nextToken_yields sees opens).bind fun token t reached => ?_
  obtain ⟨rfl, after⟩ := reached
  rw [if_pos (isAnyName_of_kind sees.kind)]
  exact ⟨_, _, rfl, ⟨rfl, sees.value⟩, after⟩

/-- Lenient reading goes on behind a fault. -/
theorem tolerate_yields (sees : s.Sees kind value text size) (fault : Fault) :
    Yields (tolerate fault) s fun _ t => t.Sees kind value text size := by
  -- A fault that is tolerated is noted, and the scanner stays where it is.
  have scanned : Yields (Scan.tolerate fault) s.scanner fun _ scanner =>
      scanner.Before text size := by
    refine .after (a := s.scanner) (t := s.scanner) rfl ?_
    rw [if_pos sees.before.lenient]
    exact ⟨_, _, rfl, sees.before.rest, sees.before.lenient, sees.before.size,
      sees.before.outside⟩
  refine (scan_yields scanned).mono fun _ t reached => ?_
  obtain ⟨before, same⟩ := reached
  rw [same]
  exact ⟨sees.kind, sees.value, before, sees.strict⟩

/-- A name that can be bound is read as one. -/
theorem bindingName_yields (sees : s.Sees .identifier value text size)
    (opens : Opens text kind' value' rest) (declaration : Text) :
    Yields (bindingName declaration) s fun t s' =>
      IsName value t ∧ s'.Sees (strictKind kind' value') value' rest size := by
  refine .after rfl ?_
  refine (nextToken_yields sees opens).bind fun token t reached => ?_
  obtain ⟨rfl, after⟩ := reached
  have noYield : ¬s.lookahead.isWord "yield" := by simp [Token.isWord, sees.kind]
  have isName : ¬(s.lookahead.kind != .identifier) := by simp [sees.kind]
  have finished : ∀ u : ParseState, u.Sees (strictKind kind' value') value' rest size →
      Yields (finishName { offset := s.lookahead.region.start, position := s.lookahead.position }
        s.lookahead.value) u fun t s' =>
          IsName value t ∧ s'.Sees (strictKind kind' value') value' rest size :=
    fun u there => ⟨_, _, rfl, ⟨rfl, sees.value⟩, there⟩
  refine .after (a := t.context) (t := t) rfl ?_
  rw [if_neg noYield, if_neg isName]
  split
  · -- In a module `await` is complained of, and read all the same.
    have complaint : (complaintOf s.lookahead).run t = .ok (.identifierHere, t) := by
      rw [complaintOf, sees.kind]
      rfl
    refine Yields.bind (.after complaint (.after rfl (tolerate_yields after _))) fun _ u there => ?_
    exact finished u there
  · exact finished t after

/-- A punctuator is asked for by its letters. -/
theorem isPunctuator_of_sees {mark : Text} (sees : s.Sees .punctuator value text size) :
    s.lookahead.isPunctuator mark = (value == mark) := by
  -- Kind and letters are those that are seen.
  rw [Token.isPunctuator, sees.kind, sees.value]
  rfl

/-- The punctuator that is asked for is read. -/
theorem expect_yields (sees : s.Sees .punctuator value text size)
    (opens : Opens text kind' value' rest) :
    Yields (expect value) s fun _ s' => s'.Sees (strictKind kind' value') value' rest size := by
  -- The token that is seen is the one that is asked for.
  refine (nextToken_yields sees opens).bind fun token t reached => ?_
  obtain ⟨rfl, after⟩ := reached
  rw [if_pos (by simp [isPunctuator_of_sees sees])]
  exact ⟨_, _, rfl, after⟩

section Entry

variable {tail name other : Text} {more : List (Text × Text)}

/-- The node that is made of the two names of an entry gives them back. -/
theorem finishEntry_yields {first second : String} (differ : first ≠ second) {x y : Tree}
    (isName : IsName (dropFinalNewline name) x) (isOther : IsName (dropFinalNewline other) y)
    (sees : s.Sees .punctuator (closing more) (behind tail more) size) (start : Point)
    (kind : String) :
    Yields (finish start kind [(second, y), (first, x)]) s fun t s' =>
      entryNames first second t = shownPair (name, other) ∧
        s'.Sees .punctuator (closing more) (behind tail more) size := by
  -- The two names are found under keys that differ.
  have distinct : (first == second) = false := beq_false_of_ne differ
  refine ⟨_, _, rfl, Prod.ext ?_ ?_, sees⟩
  · simp [entryNames, shownPair, Tree.get, Tree.fields, List.lookup_cons, isName.1, isOther.1,
      isName.2, distinct]
  · simp [entryNames, shownPair, Tree.get, Tree.fields, isName.1, isOther.1, isOther.2]

/-- An entry of an export list is read as its two names. -/
theorem exportSpecifier_yields (here : s.At tail size ((name, other) :: more))
    (word : isWord (dropFinalNewline other)) :
    Yields exportSpecifier s fun t s' =>
      entryNames "local" "exported" t = shownPair (name, other) ∧
        s'.Sees .punctuator (closing more) (behind tail more) size := by
  refine .after rfl ?_
  -- One name is followed by the end of the entry, two names by the word between them.
  by_cases same : name = other
  · subst same
    refine (identifierName_yields here (opens_afterSame name tail more)).bind
      fun bound t reached => ?_
    obtain ⟨isName, sees⟩ := reached
    refine .after (a := t.lookahead.isContextual "as") (t := t) rfl ?_
    rw [if_neg (by simp [Token.isContextual, sees.kind, strictKind])]
    exact .after rfl (finishEntry_yields (by decide) isName isName sees ..)
  · refine (identifierName_yields here (opens_afterName same _)).bind fun bound t reached => ?_
    obtain ⟨isName, sees⟩ := reached
    refine .after (a := t.lookahead.isContextual "as") (t := t) rfl ?_
    rw [if_pos (by rw [Token.isContextual, sees.kind, sees.value]; decide)]
    refine (nextToken_yields sees (opens_other word tail more)).bind fun _ u reached => ?_
    refine (identifierName_yields reached.2
      (opens_afterEntry (allSpace_finalNewline other) tail more)).bind fun exported v reached => ?_
    exact finishEntry_yields (by decide) isName reached.1 reached.2 ..

/-- An entry of an import list is read as its two names. -/
theorem importSpecifier_yields (here : s.At tail size ((name, other) :: more))
    (bindable : isBindable (dropFinalNewline other)) :
    Yields importSpecifier s fun t s' =>
      entryNames "imported" "local" t = shownPair (name, other) ∧
        s'.Sees .punctuator (closing more) (behind tail more) size := by
  rw [isBindable, Bool.and_eq_true, beq_iff_eq] at bindable
  obtain ⟨word, kind⟩ := bindable
  -- A name that can be bound is read as one that is; only a keyword needs another name.
  have first : ∀ {kind' value' rest},
      Opens (afterName name other (afterEntry tail more)) kind' value' rest →
      Yields (if s.lookahead.kind == .identifier then bindingName "" else identifierName) s
        fun t s' => IsName (dropFinalNewline name) t ∧
          s'.Sees (strictKind kind' value') value' rest size := by
    intro kind' value' rest opens
    split
    · rename_i isName
      have sees := here
      rw [ParseState.At, ← here.kind, beq_iff_eq.mp isName] at sees
      exact bindingName_yields sees opens _
    · exact identifierName_yields here opens
  refine .after rfl ?_
  refine .after (a := s.lookahead) (t := s) rfl ?_
  by_cases same : name = other
  · subst same
    refine .ite_bind (first (opens_afterSame name tail more)) fun imported t reached => ?_
    obtain ⟨isName, sees⟩ := reached
    refine .after (a := t.lookahead.isContextual "as") (t := t) rfl ?_
    rw [if_neg (by simp [Token.isContextual, sees.kind, strictKind]),
      if_pos (by simp [here.kind, kind])]
    exact .after rfl (finishEntry_yields (by decide) isName isName sees ..)
  · refine .ite_bind (first (opens_afterName same _)) fun imported t reached => ?_
    obtain ⟨isName, sees⟩ := reached
    refine .after (a := t.lookahead.isContextual "as") (t := t) rfl ?_
    rw [if_pos (by rw [Token.isContextual, sees.kind, sees.value]; decide)]
    refine (nextToken_yields sees (opens_other word tail more)).bind fun _ u reached => ?_
    have there := reached.2
    rw [← nameKind, kind] at there
    refine (bindingName_yields there
      (opens_afterEntry (allSpace_finalNewline other) tail more) _).bind fun bound v reached => ?_
    exact finishEntry_yields (by decide) isName reached.1 reached.2 ..

end Entry

section Lists

variable {tail : Text} {pair : Text × Text} {more : List (Text × Text)}

/-- Behind an entry reading goes on with the next one, or with the end of the list. -/
theorem comma_yields {α : Type} {answer : α}
    (sees : s.Sees .punctuator (closing more) (behind tail more) size)
    (words : ∀ pair ∈ more, isWord (dropFinalNewline pair.1)) :
    Yields (do
        unless ← Parse.sees "\x7d" do expect ","
        return answer) s fun a s' => a = answer ∧ s'.At tail size more := by
  -- Before the closing brace nothing is read, before another entry a comma.
  refine .after (a := s.lookahead.isPunctuator "\x7d") (t := s) rfl ?_
  cases more with
  | nil =>
    rw [isPunctuator_of_sees sees, if_pos (by decide)]
    exact ⟨_, _, rfl, rfl, sees⟩
  | cons pair more =>
    rw [isPunctuator_of_sees sees, closing, if_neg (by decide)]
    refine (expect_yields sees (opens_entry allSpace_blank (words pair List.mem_cons_self) ..)).bind
      fun _ t there => ?_
    exact ⟨_, _, rfl, rfl, there⟩

/-- At the end of the list the brace is seen. -/
theorem sees_close (here : s.At tail size []) : (Parse.sees "\x7d").run s = .ok (true, s) := by
  -- Asking changes nothing.
  have ran : (Parse.sees "\x7d").run s = .ok (s.lookahead.isPunctuator "\x7d", s) := rfl
  rwa [isPunctuator_of_sees here] at ran

/-- Before an entry no punctuator is seen. -/
theorem sees_entry (here : s.At tail size (pair :: more)) (mark : Text) :
    (Parse.sees mark).run s = .ok (false, s) := by
  -- A name is no punctuator, whatever its letters are.
  have named := isAnyName_of_kind here.kind
  have other : s.lookahead.isPunctuator mark = false := by
    rw [Token.isPunctuator]
    cases kind : s.lookahead.kind <;> simp_all [Token.isAnyName]
  have ran : (Parse.sees mark).run s = .ok (s.lookahead.isPunctuator mark, s) := rfl
  rwa [other] at ran

/-- Rounds that each read one entry of a list and the comma behind it. -/
def TakesEntries {ι : Type} (names : ι → List (Text × Text)) (good : Text × Text → Prop)
    (tail : Text) (size : Nat) (round : ι → Parse (ι ⊕ ι)) : Prop :=
  ∀ read pair more (s : ParseState), s.At tail size (pair :: more) →
    (∀ entry ∈ pair :: more, good entry) → Yields (round read) s fun outcome s' =>
      ∃ next, outcome = .inl next ∧ names next = names read ++ [shownPair pair] ∧
        s'.At tail size more

section Rounds

variable {ι : Type} (names : ι → List (Text × Text)) {good : Text × Text → Prop}
  {round : ι → Parse (ι ⊕ ι)}

/-- A list is read entry by entry until the closing brace is seen. -/
theorem entries_yield (takes : TakesEntries names good tail size round)
    {pairs : List (Text × Text)} (all : ∀ pair ∈ pairs, good pair) (here : s.At tail size pairs)
    {bound : Nat} (enough : pairs.length < bound) (read : ι) :
    Yields (repeatBounded bound read fun read => do
        if ← Parse.sees "\x7d" then return .inr read
        round read) s fun a s' =>
      names a = names read ++ pairs.map shownPair ∧ s'.At tail size [] := by
  -- Each round leaves one pair less and has room for one round less.
  induction pairs generalizing bound read s with
  | nil =>
    obtain ⟨bound, rfl⟩ := Nat.exists_eq_add_of_lt enough
    exact ⟨_, _, repeatBounded_last (run_bind (sees_close here) rfl), by simp, here⟩
  | cons pair more ih =>
    cases bound with
    | zero => cases enough
    | succ bound =>
      refine .bind (.after (sees_entry here _) (takes read pair more s here all))
        fun outcome t reached => ?_
      obtain ⟨next, rfl, isNext, there⟩ := reached
      refine (ih (fun pair held => all pair (List.mem_cons_of_mem _ held)) there
        (Nat.lt_of_succ_lt_succ enough) next).mono fun a s' done => ?_
      exact ⟨by rw [done.1, isNext]; simp, done.2⟩

/-- A list in braces is read as its entries. -/
theorem braces_yield (takes : TakesEntries names good tail size round)
    (sees : s.Sees .punctuator [.char '\x7b'] (behind tail (pair :: more)) size)
    (all : ∀ entry ∈ pair :: more, good entry) (word : isWord (dropFinalNewline pair.1))
    (enough : more.length < size) (opens : Opens tail kind' value' rest) (read : ι) :
    Yields (do
        expect "\x7b"
        let entries ← loop read fun read => do
          if ← Parse.sees "\x7d" then return .inr read
          round read
        expect "\x7d"
        return entries) s fun entries _ =>
      names entries = names read ++ (pair :: more).map shownPair := by
  -- There are more rounds than entries, since each entry takes a letter at least.
  refine (expect_yields sees (opens_entry allSpace_blank word pair.2 tail more)).bind
    fun _ t here => ?_
  have room : (pair :: more).length < t.scanner.size + 2 := by
    rw [here.before.size, List.length_cons]
    omega
  refine .bind (.after (a := t) (t := t) rfl (entries_yield names takes all here room read))
    fun entries u reached => ?_
  exact (expect_yields reached.2 opens).bind fun _ v _ => ⟨_, _, rfl, reached.1⟩

end Rounds

/-- The names in an import list are read as they are printed. -/
theorem importNames_yields
    (sees : s.Sees .punctuator [.char '\x7b'] (behind tail (pair :: more)) size)
    (good : ∀ entry ∈ pair :: more, isWord (dropFinalNewline entry.1) ∧
      isBindable (dropFinalNewline entry.2))
    (enough : more.length < size) (opens : Opens tail kind' value' rest) :
    Yields importNames s fun entries _ =>
      entries.map (entryNames "imported" "local") = (pair :: more).map shownPair := by
  refine .after (a := s.lookahead.isPunctuator "\x7b") (t := s) rfl ?_
  rw [isPunctuator_of_sees sees, if_pos (by decide)]
  refine braces_yield (List.map (entryNames "imported" "local")) ?_ sees good
    (good pair List.mem_cons_self).1 enough opens []
  -- The step: one entry, then what comes behind it.
  intro read pair more s here good
  refine (importSpecifier_yields here (good pair List.mem_cons_self).2).bind
    fun entry t reached => ?_
  refine (comma_yields reached.2 fun pair held =>
    (good pair (List.mem_cons_of_mem _ held)).1).mono fun outcome s' after => ?_
  exact ⟨_, after.1, by simp [reached.1], after.2⟩

/-- The names in an export list are read as they are printed. -/
theorem exportNames_yields
    (sees : s.Sees .punctuator [.char '\x7b'] (behind tail (pair :: more)) size)
    (good : ∀ entry ∈ pair :: more, isWord (dropFinalNewline entry.1) ∧
      isWord (dropFinalNewline entry.2))
    (enough : more.length < size) (opens : Opens tail kind' value' rest) :
    Yields exportNames s fun entries _ =>
      entries.1.map (entryNames "local" "exported") = (pair :: more).map shownPair := by
  refine .after (a := s.lookahead) (t := s) rfl ?_
  rw [if_pos (by simp [sees.kind])]
  refine braces_yield (fun read => read.1.map (entryNames "local" "exported")) ?_ sees good
    (good pair List.mem_cons_self).1 enough opens ([], false)
  -- The step: whether the entry is the word `default` is noted first, and does not matter to its
  -- names.
  intro read pair more s here good
  refine .after (a := s.lookahead.isWord "default") (t := s) rfl ?_
  refine (exportSpecifier_yields here (good pair List.mem_cons_self).2).bind
    fun entry t reached => ?_
  refine (comma_yields reached.2 fun pair held =>
    (good pair (List.mem_cons_of_mem _ held)).1).mono fun outcome s' after => ?_
  exact ⟨_, after.1, by simp [reached.1], after.2⟩

end Lists

end Parse

open Parse

/-- Reads the start of a module by a rule; errors are let pass where that can be. -/
def readStart {α : Type} (rule : Parse α) (text : Text) : Except Fault α := do
  let state ← begin text true
  let inModule := { state.context with isStrict := true, isModule := true }
  let (answer, _) ← rule.run { state with
    context := inModule, scanner := { state.scanner with isModule := true } }
  return answer

/-- The names that an import of names takes, each with the name it goes by. -/
def importedNames (text : Text) : Except Fault (List (Text × Text)) := do
  let entries ← readStart (do expectWord "import"; importNames) text
  return entries.map (entryNames "imported" "local")

/-- The names that an export of names passes on, each with the name it goes by outside. -/
def exportedNames (text : Text) : Except Fault (List (Text × Text)) := do
  let (entries, _) ← readStart (do expectWord "export"; exportNames) text
  return entries.map (entryNames "local" "exported")

section Statement

variable {α : Type} {text rest value : Text} {kind : TokenKind}

/-- Reading starts with the first token of a text. -/
theorem begin_ok (opens : Opens text kind value rest) :
    ∃ state, begin text true = .ok state ∧ state.lookahead.kind = kind ∧
      state.lookahead.value = value ∧ state.scanner.Before rest text.length := by
  let cursor := Cursor.start text
  let nothing : Token := {
    kind := .eof, value := "", raw := "", region := ⟨0, 0⟩, position := cursor.position
    lastLine := cursor.line }
  let state : ParseState := {
    scanner := { cursor, lenient := true, size := text.length }
    lookahead := nothing, lookaheadAt := cursor, lineBreak := false
    last := { offset := 0, position := cursor.position }, context := {} }
  -- Before the first token the scanner is at the start of the text, outside of any bracket.
  have before : state.scanner.Before text text.length := ⟨rfl, rfl, rfl, List.not_mem_nil⟩
  obtain ⟨_, t, ran, behind, isKind, isValue, _⟩ := refill_yields opens before nothing.lastLine
  have begun : begin text true = ((refill nothing.lastLine).run state >>= fun reached =>
      pure { reached.2 with last := { offset := reached.2.scanner.cursor.offset
                                      position := reached.2.scanner.cursor.position } }) := rfl
  rw [ran] at begun
  exact ⟨_, begun, isKind, isValue, behind⟩

/-- A rule is followed from the first token of a text. -/
theorem readStart_ok {rule : Parse α} {post : α → Prop} (opens : Opens text kind value rest)
    (yields : ∀ s : ParseState, s.Sees kind value rest text.length →
      Yields rule s fun a _ => post a) :
    ∃ a, readStart rule text = .ok a ∧ post a := by
  obtain ⟨state, begun, isKind, isValue, before⟩ := begin_ok opens
  -- Reading as a module changes what is allowed, not what is seen.
  obtain ⟨a, t, ran, met⟩ := yields { state with
    context := { state.context with isStrict := true, isModule := true }
    scanner := { state.scanner with isModule := true } }
    ⟨isKind, isValue, ⟨before.rest, before.lenient, before.size, before.outside⟩, rfl⟩
  refine ⟨a, ?_, met⟩
  rw [readStart, begun]
  change (StateT.run rule _ >>= _) = _
  rw [ran]
  rfl

/-- The keyword that is asked for is read. -/
theorem expectWord_yields {s : ParseState} {kind' : TokenKind} {value' : Text} {size : Nat}
    (sees : s.Sees .keyword value text size) (opens : Opens text kind' value' rest) :
    Yields (expectWord value) s fun _ s' => s'.Sees (strictKind kind' value') value' rest size := by
  -- The token that is seen is the one that is asked for.
  refine (nextToken_yields sees opens).bind fun token t reached => ?_
  obtain ⟨rfl, after⟩ := reached
  rw [if_pos (by simp [Token.isWord, sees.kind, sees.value])]
  exact ⟨_, _, rfl, after⟩

/-- A list that is printed is its first entry and what comes behind it. -/
theorem commaSeparated_afterEntry (tail : Text) (pair : Text × Text) (more : List (Text × Text)) :
    Text.commaSeparated (aliasTexts (pair :: more)) ++ .char ' ' :: .char '\x7d' :: tail =
      aliasText pair.1 pair.2 ++ afterEntry tail more := by
  induction more generalizing pair with
  | nil => simp [aliasTexts, Text.commaSeparated, Text.joined, afterEntry]
  | cons next more ih =>
    -- The first entry and the comma behind it come off; the rest is the shorter list.
    have split : Text.commaSeparated (aliasTexts (pair :: next :: more)) =
        aliasText pair.1 pair.2 ++ (Text.ofString ", " ++
          Text.commaSeparated (aliasTexts (next :: more))) := by
      rw [← List.append_assoc]
      exact List.intercalate_cons_cons
    rw [split, List.append_assoc, List.append_assoc, ih]
    rfl

/-- A list of names in braces, as it is printed. -/
theorem braced_append (tail : Text) (pair : Text × Text) (more : List (Text × Text)) :
    braced (aliasTexts (pair :: more)) ++ tail = .char '\x7b' :: behind tail (pair :: more) := by
  -- The letters are the same, divided at the first brace.
  rw [behind, ← commaSeparated_afterEntry, braced, List.append_assoc, List.append_assoc]
  rfl

/-- A statement is longer than its list has entries, so there is a round for each of them. -/
theorem length_lt_statement (word tail : Text) (pair : Text × Text) (more : List (Text × Text)) :
    more.length < (word ++ .char ' ' :: .char '\x7b' :: behind tail (pair :: more)).length := by
  -- Each entry has a comma before it or a brace behind it.
  have each : more.length ≤ (afterEntry tail more).length := by
    induction more with
    | nil => exact Nat.zero_le _
    | cons pair more ih =>
      simp only [afterEntry, List.length_cons, List.length_append]
      omega
  simp only [behind, List.length_cons, List.length_append]
  omega

/-- A statement that opens with a keyword and a list is read from there. -/
theorem readStart_list (word : Text) (isWord : isWord word) (isKeyword : wordKind word = .keyword)
    (text : Text) {rule : Parse α} {post : α → Prop}
    (yields : ∀ s : ParseState,
      s.Sees .punctuator [.char '\x7b'] text (word ++ .char ' ' :: .char '\x7b' :: text).length →
      Yields rule s fun a _ => post a) :
    ∃ a, readStart (do expectWord word; rule) (word ++ .char ' ' :: .char '\x7b' :: text) = .ok a ∧
      post a := by
  -- The keyword comes first, then the brace.
  have opens := opens_word allSpace_nil isWord (show continuesWord (.char ' ') = false by decide)
    (.char '\x7b' :: text)
  rw [isKeyword] at opens
  refine readStart_ok opens fun s sees => ?_
  have brace : Opens (.char ' ' :: .char '\x7b' :: text) .punctuator [.char '\x7b'] text :=
    opens_punctuator allSpace_blank (by decide) text
  exact (expectWord_yields sees brace).bind fun _ t after => yields t after

variable {pairs : List (Text × Text)}

/-- An import of names is read as the names that are printed. -/
theorem importedNames_printed (some_ : pairs ≠ [])
    (good : ∀ pair ∈ pairs, isWord (dropFinalNewline pair.1) ∧ isBindable (dropFinalNewline pair.2))
    (literal : Text) :
    importedNames ("import " ++ braced (aliasTexts pairs) ++ " from " ++ literal ++ ";") =
      .ok (pairs.map shownPair) := by
  cases pairs with
  | nil => exact absurd rfl some_
  | cons pair more =>
    let tail : Text := Text.ofString " from " ++ (literal ++ Text.ofString ";")
    have text : ofString "import " ++ braced (aliasTexts (pair :: more)) ++ ofString " from " ++
        literal ++ ofString ";" =
        ofString "import" ++ .char ' ' :: .char '\x7b' :: behind tail (pair :: more) := by
      rw [← braced_append]
      simp only [tail, List.append_assoc]
      rfl
    -- Behind the list there has to be a token, which is the word before the module.
    have opens : Opens tail .identifier "from" (.char ' ' :: (literal ++ ofString ";")) :=
      opens_word allSpace_blank (show isWord (ofString "from") by decide) (by decide) _
    obtain ⟨entries, read, names⟩ := readStart_list "import" (by decide) (by decide)
      (behind tail (pair :: more)) fun s sees =>
        importNames_yields sees good (length_lt_statement ..) opens
    rw [text, importedNames, read]
    exact congrArg Except.ok names

/-- An export of names is read as the names that are printed. -/
theorem exportedNames_printed (some_ : pairs ≠ [])
    (good : ∀ pair ∈ pairs, isWord (dropFinalNewline pair.1) ∧ isWord (dropFinalNewline pair.2)) :
    exportedNames ("export " ++ braced (aliasTexts pairs) ++ ";") =
      .ok (pairs.map shownPair) := by
  cases pairs with
  | nil => exact absurd rfl some_
  | cons pair more =>
    have text : ofString "export " ++ braced (aliasTexts (pair :: more)) ++ ofString ";" =
        ofString "export" ++ .char ' ' :: .char '\x7b' :: behind (ofString ";") (pair :: more) := by
      rw [← braced_append, List.append_assoc]
      rfl
    -- Behind the list there has to be a token, which is the one that ends the statement.
    have opens : Opens (ofString ";") .punctuator [.char ';'] [] :=
      opens_punctuator allSpace_nil (by decide) []
    obtain ⟨entries, read, names⟩ := readStart_list "export" (by decide) (by decide)
      (behind (ofString ";") (pair :: more)) fun s sees =>
        exportNames_yields sees good (length_lt_statement ..) opens
    rw [text, exportedNames, read]
    exact congrArg Except.ok names

end Statement

end ModuleLift.Grammar
