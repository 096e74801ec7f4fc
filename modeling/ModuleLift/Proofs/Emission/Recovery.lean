import ModuleLift.Proofs.Emission.Printed
import Mathlib.Data.List.TakeWhile

/-! What is written of the imports and exports that a conversion puts in can be read back: the
printed text tells the kind of statement, the names in their order, and the text that names the
module. -/

namespace ModuleLift.Emission

/-- The imports and exports a conversion puts in, apart from the module they name. -/
inductive Form where
  | importDefault (name : Text)
  /-- Pairs of an imported and a local name. -/
  | importNamed (pairs : List (Text × Text))
  | importEffects
  /-- Pairs of a local and an exported name. -/
  | exportNamed (pairs : List (Text × Text))
deriving DecidableEq

namespace Form

/-- The statement of a form that names its module by `origin`. -/
def tree (origin : Tree) : Form → Tree
  | importDefault name => .importDefault name origin
  | importNamed pairs => .importNamed pairs origin
  | importEffects => .importEffects origin
  | exportNamed pairs => .exportNamed pairs

/-- The names in a statement. -/
def names : Form → List Text
  | importDefault name => [name]
  | importNamed pairs => pairs.flatMap fun (imported, bound) => [imported, bound]
  | importEffects => []
  | exportNamed pairs => pairs.flatMap fun (bound, exported) => [bound, exported]

/-- The text that names the module, where there is one. -/
def literal? (literal : Text) : Form → Option Text
  | exportNamed _ => none
  | _ => some literal

/-- The form that shows: an import of no names at all is an import for effects. -/
def shown : Form → Form
  | importNamed [] => importEffects
  | form => form

end Form

/-- A letter that a quoted text starts with. -/
def isQuote (l : Letter) : Bool := l = '\'' || l = '"'

/-- A text between two quotes of a kind. -/
def Quoted (text : Text) : Prop :=
  ∃ quote inner, isQuote quote ∧ text = quote :: (inner ++ [quote])

/-- A name without any of the letters that stand between names. -/
def isPlain (name : Text) : Bool :=
  name.all fun (l : Letter) => l ≠ ' ' && l ≠ ',' && l ≠ '\x7b' && l ≠ '\x7d' && !isQuote l

/-! Reading. -/

/-- Reads a name, or two with `as` between them. -/
def readPair (entry : Text) : Text × Text :=
  let name := entry.takeWhile fun (l : Letter) => l ≠ ' '
  -- A name by itself goes by no other name.
  if name = entry then (name, name) else (name, entry.drop (name.length + 4))

/-- Reads what stands between braces: names with commas between them, and a blank around each. -/
def readPairs (inside : Text) : List (Text × Text) :=
  (inside.dropLast.splitOn (.char ',')).map fun entry => readPair (entry.drop 1)

/-- What stands before a closing brace. -/
def beforeBrace (text : Text) : Text := text.takeWhile fun (l : Letter) => l ≠ '\x7d'

/-- Reads what is printed of an import after its first word, with the text that names the
module. -/
def readImport (text : Text) : Form × Option Text :=
  if text.head? = some (.char '\x7b') then
    let inside := beforeBrace (text.drop 1)
    -- After the names come the brace and `from`, at the end a semicolon.
    (.importNamed (readPairs inside), some (text.drop (inside.length + 8)).dropLast)
  else if text.head?.any isQuote then (.importEffects, some text.dropLast)
  else
    let name := text.takeWhile fun (l : Letter) => l ≠ ' '
    (.importDefault name, some (text.drop (name.length + 6)).dropLast)

/-- Reads an import or export as it is printed, with the text that names its module. -/
def readForm? (text : Text) : Option (Form × Option Text) :=
  if Text.startsWith "import " text then some (readImport (text.drop 7))
  else if Text.startsWith "export \x7b" text then
    some (.exportNamed (readPairs (beforeBrace (text.drop 8))), none)
  else none

/-! Printing. -/

section Printing

variable {source : Source} {origin : Tree} {literal : Text}

/-- A name that is put in is written as it is. -/
theorem render_identifier (source : Source) (name : Text) :
    render source (.identifier name) = .ok name := by
  -- It was not read, so its form is printed.
  rw [Tree.identifier, render, if_neg (synthetic_unread _ _)]
  rfl

/-- What an import makes of one of its specifiers. -/
def clauseOf (source : Source) (specifier : Tree) : Except EmitError Clause := do
  let bound ← render source (specifier.get "local")
  if specifier.isA "ImportDefaultSpecifier" then return Clause.whole bound
  else if specifier.isA "ImportNamespaceSpecifier" then return Clause.whole ("* as " ++ bound)
  else
    let imported ← render source (specifier.get "imported")
    return Clause.named (aliasText imported bound)

/-- An import is printed from its clauses and the text of its module. -/
theorem render_importFrom (written : render source origin = .ok literal) {specifiers : List Tree}
    {clauses : List Clause} (each : specifiers.mapM (clauseOf source) = .ok clauses) :
    render source (.importFrom specifiers origin) = .ok (importText clauses literal) := by
  -- Printing goes to the module first, then to the clauses.
  have form : render source (.importFrom specifiers origin) =
      (([] : Text) ++ ·) <$> (render source origin >>= fun literal =>
        specifiers.mapM (clauseOf source) >>= fun clauses =>
          pure (importText clauses literal)) := by
    rw [Tree.importFrom, render, if_neg (synthetic_unread _ _), ← attach_mapM]
    rfl
  rw [form, written, each]
  rfl

/-- An import of a module under one name. -/
theorem render_importDefault (written : render source origin = .ok literal) (name : Text) :
    render source (.importDefault name origin) =
      .ok ("import " ++ name ++ " from " ++ literal ++ ";") := by
  -- There is one clause, which is not in braces.
  have one : clauseOf source (.synthetic "ImportDefaultSpecifier" [("local", .identifier name)]) =
      .ok (.whole name) := by
    change (render source (.identifier name) >>= _) = _
    rw [render_identifier]
    rfl
  have each : [Tree.synthetic "ImportDefaultSpecifier" [("local", .identifier name)]].mapM
      (clauseOf source) = .ok [.whole name] := by
    rw [List.mapM_cons, one, List.mapM_nil]
    rfl
  rw [Tree.importDefault, render_importFrom written each]
  simp [importText, Clause.named?, Clause.whole?, Text.commaSeparated, Text.joined]

/-- An import without names. -/
theorem render_importEffects (written : render source origin = .ok literal) :
    render source (.importEffects origin) = .ok ("import " ++ literal ++ ";") := by
  -- Without clauses the module follows the word at once.
  have each : ([] : List Tree).mapM (clauseOf source) = .ok [] := rfl
  rw [Tree.importEffects, render_importFrom written each]
  rfl

/-- The names of an import in braces, each with the name it goes by. -/
theorem mapM_clauseOf_named (pairs : List (Text × Text)) :
    (pairs.map fun (imported, bound) => Tree.synthetic "ImportSpecifier"
        [("imported", .identifier imported), ("local", .identifier bound)]).mapM
      (clauseOf source) =
      .ok (pairs.map fun (imported, bound) => Clause.named (aliasText imported bound)) := by
  -- Each pair becomes one clause in braces.
  induction pairs with
  | nil => rfl
  | cons pair rest ih =>
    have one : clauseOf source (.synthetic "ImportSpecifier"
        [("imported", .identifier pair.1), ("local", .identifier pair.2)]) =
        .ok (.named (aliasText pair.1 pair.2)) := by
      change (render source (.identifier pair.2) >>= fun bound =>
        render source (.identifier pair.1) >>= fun imported =>
          pure (Clause.named (aliasText imported bound))) = _
      rw [render_identifier, render_identifier]
      rfl
    rw [List.map_cons, List.mapM_cons, one, ih]
    rfl

/-- The texts of names, each with the name it goes by. -/
def aliasTexts (pairs : List (Text × Text)) : List Text :=
  pairs.map fun (name, other) => aliasText name other

/-- An import of names in braces. -/
theorem render_importNamed (written : render source origin = .ok literal)
    {pairs : List (Text × Text)} (some_ : pairs ≠ []) :
    render source (.importNamed pairs origin) =
      .ok ("import " ++ braced (aliasTexts pairs) ++ " from " ++ literal ++ ";") := by
  rw [Tree.importNamed, render_importFrom written (mapM_clauseOf_named pairs), importText]
  -- All clauses are names in braces.
  have named : (pairs.map fun (imported, bound) =>
      Clause.named (aliasText imported bound)).filterMap Clause.named? = aliasTexts pairs := by
    rw [List.filterMap_map, aliasTexts, ← List.filterMap_eq_map]
    rfl
  have whole : (pairs.map fun (imported, bound) =>
      Clause.named (aliasText imported bound)).filterMap Clause.whole? = [] := by
    rw [List.filterMap_map]
    exact List.filterMap_eq_nil_iff.mpr fun _ _ => rfl
  have filled : (aliasTexts pairs).isEmpty = false := by
    simpa [aliasTexts] using some_
  simp [named, whole, filled, Text.commaSeparated, Text.joined]

/-- An export of names in braces. -/
theorem render_exportNamed (pairs : List (Text × Text)) :
    render source (.exportNamed pairs) = .ok ("export " ++ braced (aliasTexts pairs) ++ ";") := by
  let exportedOf (specifier : Tree) : Except EmitError Text := do
    let bound ← render source (specifier.get "local")
    let exported ← render source (specifier.get "exported")
    return aliasText bound exported
  let specifierOf (pair : Text × Text) : Tree := .synthetic "ExportSpecifier"
    [("local", .identifier pair.1), ("exported", .identifier pair.2)]
  have each : (pairs.map specifierOf).mapM exportedOf = .ok (aliasTexts pairs) := by
    induction pairs with
    | nil => rfl
    | cons pair rest ih =>
      have one : exportedOf (specifierOf pair) = .ok (aliasText pair.1 pair.2) := by
        change (render source (.identifier pair.1) >>= fun bound =>
          render source (.identifier pair.2) >>= fun exported =>
            pure (aliasText bound exported)) = _
        rw [render_identifier, render_identifier]
        rfl
      rw [List.map_cons, List.mapM_cons, one, ih]
      rfl
  -- Printing the statement is printing its specifiers, with nothing above it.
  have form : render source (.exportNamed pairs) =
      (([] : Text) ++ ·) <$> ((pairs.map specifierOf).mapM exportedOf >>= fun names =>
        pure ("export " ++ braced names ++ ";")) := by
    rw [Tree.exportNamed, render, if_neg (synthetic_unread _ _), ← attach_mapM]
    rfl
  rw [form, each]
  rfl

end Printing

/-! Reading what is printed. -/

section Recovery

/-- What separates names is no part of a plain name. -/
theorem isPlain_iff (name : Text) : isPlain name ↔ ∀ l ∈ name,
    l ≠ .char ' ' ∧ l ≠ .char ',' ∧ l ≠ .char '\x7b' ∧ l ≠ .char '\x7d' ∧ ¬isQuote l := by
  simp [isPlain, and_assoc]

/-- Letters of a class before one that is not in it are taken, and no more. -/
theorem takeWhile_stop {test : Letter → Bool} {taken : Text} {stop : Letter} {rest : Text}
    (all : ∀ l ∈ taken, test l) (stops : test stop = false) :
    (taken ++ stop :: rest).takeWhile test = taken := by
  -- Taking goes on through the class and ends at the first letter outside it.
  rw [List.takeWhile_append_of_pos all, List.takeWhile_cons_of_neg (by simp [stops]),
    List.append_nil]

/-- A name is told from what follows it by the first blank. -/
theorem takeWhile_blank {name : Text} (plain : isPlain name) (rest : Text) :
    (name ++ .char ' ' :: rest).takeWhile (fun (l : Letter) => l ≠ ' ') = name :=
  takeWhile_stop (fun l held => decide_eq_true (((isPlain_iff name).mp plain) l held).1) (by decide)

/-- A pair of names is read back, also where one of them was left out. -/
theorem readPair_aliasText {name other : Text} (plain : isPlain name) :
    readPair (aliasText name other) = (name, other) := by
  rw [aliasText]
  split
  · -- One name stands for both: there is no blank in it to end the reading.
    rename_i same
    have all : name.takeWhile (fun (l : Letter) => l ≠ ' ') = name :=
      List.takeWhile_eq_self_iff.mpr fun l held =>
        decide_eq_true (((isPlain_iff name).mp plain) l held).1
    rw [readPair, all, if_pos rfl, same]
  · -- Two names: the first ends at the first blank, and four letters on the second begins.
    have text : name ++ Text.ofString " as " ++ other =
        name ++ .char ' ' :: (Text.ofString "as " ++ other) := by
      rw [List.append_assoc]
      rfl
    have longer : name ≠ name ++ Text.ofString " as " ++ other := by
      intro same
      have lengths := congrArg List.length same
      have four : (" as " : Text).length = 4 := by decide
      simp only [List.length_append, four] at lengths
      omega
    have behind : (name ++ Text.ofString " as " ++ other).drop (name.length + 4) = other := by
      refine List.drop_left' ?_
      rw [List.length_append]
      rfl
    have first : (name ++ Text.ofString " as " ++ other).takeWhile (fun (l : Letter) => l ≠ ' ') =
        name := by
      rw [text]
      exact takeWhile_blank plain _
    rw [readPair, first, if_neg longer, behind]

/-- Entries with a comma and a blank between them, and a blank before the first, are entries with
a blank before each and a comma between them. -/
theorem blank_commaSeparated {entries : List Text} (some_ : entries ≠ []) :
    .char ' ' :: Text.commaSeparated entries =
      [Letter.char ','].intercalate (entries.map (.char ' ' :: ·)) := by
  induction entries with
  | nil => exact absurd rfl some_
  | cons first rest ih =>
    cases rest with
    | nil => simp [Text.commaSeparated, Text.joined]
    | cons second more =>
      have after := ih (List.cons_ne_nil second more)
      rw [Text.commaSeparated, Text.joined] at after ⊢
      rw [List.intercalate_cons_cons, List.map_cons, List.map_cons, List.intercalate_cons_cons,
        ← List.map_cons, ← after]
      -- The blank after a comma is the one before the next entry.
      have comma : (", " : Text) = [.char ',', .char ' '] := by decide
      simp [comma]

/-- No letter that separates entries or ends a list of them stands in one of its entries. -/
theorem mem_aliasText {name other : Text} (first : isPlain name) (second : isPlain other)
    {l : Letter} (member : l ∈ aliasText name other) : l ≠ .char ',' ∧ l ≠ .char '\x7d' := by
  -- An entry is made of plain names and of the word between them.
  have inName := fun held => ((isPlain_iff name).mp first) l held
  have inOther := fun held => ((isPlain_iff other).mp second) l held
  rw [aliasText] at member
  split at member
  · exact ⟨(inName member).2.1, (inName member).2.2.2.1⟩
  · rcases List.mem_append.mp member with held | held
    · rcases List.mem_append.mp held with held | held
      · exact ⟨(inName held).2.1, (inName held).2.2.2.1⟩
      · have word : ∀ l ∈ (" as " : Text), l ≠ .char ',' ∧ l ≠ .char '\x7d' := by decide
        exact word l held
    · exact ⟨(inOther held).2.1, (inOther held).2.2.2.1⟩

/-- A letter of a list of entries is one of an entry, or one of those between two. -/
theorem mem_commaSeparated {entries : List Text} {l : Letter}
    (member : l ∈ Text.commaSeparated entries) :
    (∃ entry ∈ entries, l ∈ entry) ∨ l = .char ',' ∨ l = .char ' ' := by
  -- Each entry but the last has a comma and a blank behind it.
  rw [Text.commaSeparated, Text.joined] at member
  induction entries with
  | nil => simp at member
  | cons first rest ih =>
    cases rest with
    | nil => exact .inl ⟨first, by simp, by simpa using member⟩
    | cons second more =>
      rw [List.intercalate_cons_cons, List.append_assoc] at member
      rcases List.mem_append.mp member with held | held
      · exact .inl ⟨first, by simp, held⟩
      · rcases List.mem_append.mp held with between | held
        · have comma : ∀ l ∈ (", " : Text), l = .char ',' ∨ l = .char ' ' := by decide
          exact .inr (comma l between)
        · rcases ih held with ⟨entry, known, inside⟩ | between
          · exact .inl ⟨entry, List.mem_cons_of_mem _ known, inside⟩
          · exact .inr between

/-- What stands between the braces of a list of names. -/
def inBraces (pairs : List (Text × Text)) : Text :=
  .char ' ' :: Text.commaSeparated (aliasTexts pairs) ++ [.char ' ']

/-- A list in braces opens with a brace, then come the names. -/
theorem braced_aliasTexts (pairs : List (Text × Text)) :
    braced (aliasTexts pairs) = .char '\x7b' :: (inBraces pairs ++ [.char '\x7d']) := by
  -- The blanks inside the braces belong to the names here.
  simp only [braced, inBraces, List.cons_append, List.append_assoc]
  rfl

variable {pairs : List (Text × Text)}

/-- Names in braces are read back in their order. -/
theorem readPairs_inBraces (some_ : pairs ≠ [])
    (plain : ∀ pair ∈ pairs, isPlain pair.1 ∧ isPlain pair.2) :
    readPairs (inBraces pairs) = pairs := by
  have filled : aliasTexts pairs ≠ [] := by simpa [aliasTexts] using some_
  have noComma : ∀ entry ∈ (aliasTexts pairs).map (Letter.char ' ' :: ·), .char ',' ∉ entry := by
    intro entry held
    obtain ⟨text, member, rfl⟩ := List.mem_map.mp held
    obtain ⟨pair, known, rfl⟩ := List.mem_map.mp member
    rw [List.mem_cons, not_or]
    exact ⟨by decide, fun comma =>
      (mem_aliasText (plain pair known).1 (plain pair known).2 comma).1 rfl⟩
  rw [readPairs, inBraces, List.dropLast_concat, blank_commaSeparated filled,
    List.splitOn_intercalate _ noComma (by simpa using filled), List.map_map, aliasTexts,
    List.map_map]
  -- Each entry loses the blank before it and is read as its pair.
  refine (List.map_congr_left fun pair known => ?_).trans (List.map_id pairs)
  exact readPair_aliasText (plain pair known).1

/-- The first closing brace is the one after the names. -/
theorem beforeBrace_inBraces (plain : ∀ pair ∈ pairs, isPlain pair.1 ∧ isPlain pair.2)
    (rest : Text) :
    beforeBrace (inBraces pairs ++ .char '\x7d' :: rest) = inBraces pairs := by
  refine takeWhile_stop (fun l held => decide_eq_true ?_) (by decide)
  -- No letter before the closing brace is one: not in the names, nor between them, nor in the
  -- blanks around them.
  rw [inBraces] at held
  rcases List.mem_append.mp held with held | held
  · rcases List.mem_cons.mp held with rfl | held
    · decide
    · rcases mem_commaSeparated held with ⟨entry, known, inside⟩ | rfl | rfl
      · obtain ⟨pair, member, rfl⟩ := List.mem_map.mp known
        exact (mem_aliasText (plain pair member).1 (plain pair member).2 inside).2
      · decide
      · decide
  · rw [List.mem_singleton.mp held]
    decide

/-! Reading undoes the printing of each form. -/

/-- A statement that starts with the word for an import is read as one. -/
theorem readForm?_import (text : Text) :
    readForm? (Text.ofString "import " ++ text) = some (readImport text) := by
  -- The word and the blank after it have seven letters.
  have starts : Text.startsWith "import " (Text.ofString "import " ++ text) := by
    rw [Text.startsWith, List.isPrefixOf_iff_prefix]
    exact List.prefix_append _ _
  have behind : (Text.ofString "import " ++ text).drop 7 = text := List.drop_left' (by decide)
  rw [readForm?, if_pos starts, behind]

/-- What follows the names of an import. -/
def fromText (literal : Text) : Text := " from " ++ (literal ++ ";")

/-- The last letter of a statement is its semicolon. -/
theorem dropLast_semicolon (literal : Text) :
    (literal ++ Text.ofString ";").dropLast = literal :=
  List.dropLast_concat

/-- Behind the names of an import and the word after them stands the module. -/
theorem drop_fromText {start : Text} {size : Nat} (long : start.length = size) (literal : Text) :
    ((start ++ fromText literal).drop (size + 6)).dropLast = literal := by
  -- The word with the blanks around it has six letters.
  have behind : (start ++ fromText literal).drop (size + 6) = literal ++ Text.ofString ";" := by
    rw [fromText, ← List.append_assoc]
    refine List.drop_left' ?_
    rw [List.length_append, long]
    rfl
  rw [behind, dropLast_semicolon]

/-- An import of a module under one name is read back. -/
theorem readImport_default {name : Text} (plain : isPlain name) (literal : Text) :
    readImport (name ++ fromText literal) = (.importDefault name, some literal) := by
  -- A name starts with neither a brace nor a quote, and so does the blank after an empty one.
  have starts : ∀ l ∈ (name ++ fromText literal).head?, l ≠ .char '\x7b' ∧ ¬isQuote l := by
    intro l first
    cases name with
    | nil =>
      rw [← Option.some.inj first]
      decide
    | cons letter more =>
      have known := (isPlain_iff _).mp plain letter List.mem_cons_self
      rw [← Option.some.inj first]
      exact ⟨known.2.2.1, known.2.2.2.2⟩
  have noBrace : ¬(name ++ fromText literal).head? = some (.char '\x7b') := fun first =>
    (starts _ first).1 rfl
  have noQuote : ¬(name ++ fromText literal).head?.any isQuote := by
    rw [Option.any_eq_true]
    rintro ⟨l, first, quote⟩
    exact (starts l first).2 quote
  have named : (name ++ fromText literal).takeWhile (fun (l : Letter) => l ≠ ' ') = name :=
    takeWhile_blank plain (Text.ofString "from " ++ (literal ++ Text.ofString ";"))
  rw [readImport, if_neg noBrace, if_neg noQuote, named]
  exact congrArg (fun text => (Form.importDefault name, some text)) (drop_fromText rfl literal)

/-- An import without names is read back. -/
theorem readImport_effects {literal : Text} (quoted : Quoted literal) :
    readImport (literal ++ Text.ofString ";") = (.importEffects, some literal) := by
  -- What starts with a quote is the module itself.
  obtain ⟨quote, inner, isOne, rfl⟩ := quoted
  have first : (quote :: (inner ++ [quote]) ++ Text.ofString ";").head? = some quote := rfl
  have noBrace : ¬some quote = some (Letter.char '\x7b') := by
    intro same
    rw [Option.some.inj same] at isOne
    exact absurd isOne (by decide)
  rw [readImport, first, if_neg noBrace, Option.any_some, if_pos isOne, dropLast_semicolon]

/-- An import of names in braces is read back. -/
theorem readImport_named (some_ : pairs ≠ [])
    (plain : ∀ pair ∈ pairs, isPlain pair.1 ∧ isPlain pair.2) (literal : Text) :
    readImport (braced (aliasTexts pairs) ++ fromText literal) =
      (.importNamed pairs, some literal) := by
  have first : (braced (aliasTexts pairs) ++ fromText literal).head? = some (.char '\x7b') := rfl
  have inside : beforeBrace ((braced (aliasTexts pairs) ++ fromText literal).drop 1) =
      inBraces pairs := by
    rw [braced_aliasTexts, List.cons_append, List.append_assoc]
    exact beforeBrace_inBraces plain (fromText literal)
  -- Two braces around the names are counted with them.
  have size : (braced (aliasTexts pairs)).length = (inBraces pairs).length + 2 := by
    rw [braced_aliasTexts, List.length_cons, List.length_append]
    rfl
  rw [readImport, if_pos first, inside]
  exact congrArg₂ (fun names text => (Form.importNamed names, some text))
    (readPairs_inBraces some_ plain) (drop_fromText size literal)

/-- An export of names is read back. -/
theorem readForm?_export (some_ : pairs ≠ [])
    (plain : ∀ pair ∈ pairs, isPlain pair.1 ∧ isPlain pair.2) :
    readForm? (Text.ofString "export " ++ braced (aliasTexts pairs) ++ Text.ofString ";") =
      some (.exportNamed pairs, none) := by
  have text : Text.ofString "export " ++ braced (aliasTexts pairs) ++ Text.ofString ";" =
      Text.ofString "export \x7b" ++ (inBraces pairs ++ .char '\x7d' :: Text.ofString ";") := by
    rw [braced_aliasTexts]
    simp only [List.append_assoc, List.cons_append]
    rfl
  have starts : Text.startsWith "export \x7b" (Text.ofString "export \x7b" ++
      (inBraces pairs ++ .char '\x7d' :: Text.ofString ";")) := by
    rw [Text.startsWith, List.isPrefixOf_iff_prefix]
    exact List.prefix_append _ _
  -- The first letter already tells it from an import.
  have other : ¬Text.startsWith "import " (Text.ofString "export \x7b" ++
      (inBraces pairs ++ .char '\x7d' :: Text.ofString ";")) := by
    exact Bool.false_ne_true
  have behind : (Text.ofString "export \x7b" ++
      (inBraces pairs ++ .char '\x7d' :: Text.ofString ";")).drop 8 =
        inBraces pairs ++ .char '\x7d' :: Text.ofString ";" := List.drop_left' (by decide)
  rw [text, readForm?, if_neg other, if_pos starts, behind, beforeBrace_inBraces plain,
    readPairs_inBraces some_ plain]

end Recovery

/-- The names in a list of pairs are plain if all names in it are. -/
theorem isPlain_of_flatMap {pairs : List (Text × Text)}
    (plain : ∀ name ∈ pairs.flatMap (fun pair => [pair.1, pair.2]), isPlain name) :
    ∀ pair ∈ pairs, isPlain pair.1 ∧ isPlain pair.2 := by
  -- Both names of a pair are among all names.
  intro pair known
  have held : ∀ name ∈ [pair.1, pair.2], isPlain name := fun name member =>
    plain name (List.mem_flatMap.mpr ⟨pair, known, member⟩)
  exact ⟨held _ (by simp), held _ (by simp)⟩

/-- The text of an import or export tells what kind of statement it is, the names in it with their
order and direction, and the text that names the module. Only an import of no names at all cannot be
told from one for effects. -/
theorem readForm?_render {source : Source} {origin : Tree} {literal : Text}
    (written : render source origin = .ok literal) (quoted : Quoted literal) {form : Form}
    (plain : ∀ name ∈ form.names, isPlain name) (exports : form ≠ .exportNamed []) :
    ∃ text, render source (form.tree origin) = .ok text ∧
      readForm? text = some (form.shown, form.literal? literal) := by
  cases form with
  | importDefault name =>
    refine ⟨_, render_importDefault written name, ?_⟩
    rw [List.append_assoc, List.append_assoc, List.append_assoc, readForm?_import]
    exact congrArg some (readImport_default (plain name List.mem_cons_self) literal)
  | importNamed pairs =>
    -- An import of no names is printed as one for effects, and that is what is read back.
    cases pairs with
    | nil =>
      refine ⟨_, render_importEffects written, ?_⟩
      rw [List.append_assoc, readForm?_import]
      exact congrArg some (readImport_effects quoted)
    | cons pair rest =>
      have some_ : pair :: rest ≠ [] := List.cons_ne_nil pair rest
      refine ⟨_, render_importNamed written some_, ?_⟩
      rw [List.append_assoc, List.append_assoc, List.append_assoc, readForm?_import]
      exact congrArg some (readImport_named some_ (isPlain_of_flatMap plain) literal)
  | importEffects =>
    refine ⟨_, render_importEffects written, ?_⟩
    rw [List.append_assoc, readForm?_import]
    exact congrArg some (readImport_effects quoted)
  | exportNamed pairs =>
    have some_ : pairs ≠ [] := fun none => exports (none ▸ rfl)
    exact ⟨_, render_exportNamed pairs, readForm?_export some_ (isPlain_of_flatMap plain)⟩

/-- Names with and without another name beside them are read back, each in its place. -/
theorem readForm?_render_mixed :
    let origin : Tree := .stringLiteral '"' "./from; 'x'"
    let form : Form := .importNamed [("a", "b"), ("from", "from"), ("default", "as")]
    render #[] origin = .ok "\"./from; 'x'\"" ∧ (∀ name ∈ form.names, isPlain name) ∧
      ∃ text, render #[] (form.tree origin) = .ok text ∧
        readForm? text = some (form, some (Text.ofString "\"./from; 'x'\"")) := by
  -- The quotes and words inside the module do not disturb the names before it.
  intro origin form
  have written : render #[] origin = .ok "\"./from; 'x'\"" := by
    rw [render]
    rfl
  have quoted : Quoted "\"./from; 'x'\"" := ⟨.char '"', "./from; 'x'", by decide, by decide⟩
  have plain : ∀ name ∈ form.names, isPlain name := by decide
  exact ⟨written, plain, readForm?_render written quoted plain (by decide)⟩

/-- An import of no names and an import for effects have one text, which no reader can tell
apart. -/
theorem importNamed_nil_unreadable :
    ¬∃ read : Text → Option (Form × Option Text),
      ∀ (source : Source) (origin : Tree) (literal text : Text) (form : Form),
        render source origin = .ok literal → Quoted literal →
        (∀ name ∈ form.names, isPlain name) → form ≠ .exportNamed [] →
        render source (form.tree origin) = .ok text →
        read text = some (form, form.literal? literal) := by
  rintro ⟨read, recovers⟩
  let origin : Tree := .stringLiteral '"' "x"
  have written : render #[] origin = .ok "\"x\"" := by
    rw [render]
    rfl
  have quoted : Quoted "\"x\"" := ⟨.char '"', "x", by decide, by decide⟩
  -- The two forms have one text, so a reader that recovers each of them takes one for the other.
  have named := recovers #[] origin _ _ (.importNamed []) written quoted (by decide) (by decide)
    (render_importEffects written)
  have effects := recovers #[] origin _ _ .importEffects written quoted (by decide) (by decide)
    (render_importEffects written)
  rw [named] at effects
  exact absurd effects (by decide)

end ModuleLift.Emission
