import ModuleLift.Proofs.ExportMap
import ModuleLift.Proofs.Grammar.NameLists

/-! Keys that are written as strings. A pattern that becomes an import of names and an object
literal that becomes an export of names can have strings among their keys, and what is printed for
such a key is its text. The key that was meant is read from it unless it ends in a newline. -/

namespace ModuleLift

open Emission Grammar

/-- A text that is a name as a whole: a Latin letter, an underscore or a dollar sign, and behind it
only such letters and digits. -/
def IsPlainName (text : Text) : Prop :=
  ∃ first rest, text = first :: rest ∧
    (first.isAlpha ∨ first = .char '_' ∨ first = .char '$') ∧
    ∀ l ∈ rest, l.isAlpha ∨ l.isDigit ∨ l = .char '_' ∨ l = .char '$'

/-- A text with a newline at its end. -/
def EndsInNewline (text : Text) : Prop := text.getLast? = some (.char '\n')

instance : DecidablePred EndsInNewline := fun text =>
  inferInstanceAs (Decidable (text.getLast? = _))

/-- A string that is let through as a key: a name, alone or with a newline behind it. -/
def IsKeyText (text : Text) : Prop :=
  IsPlainName text ∨ ∃ name, IsPlainName name ∧ text = name ++ [.char '\n']

section Names

variable {text name : Text}

/-- A plain name starts with a letter, an underscore or a dollar sign. -/
theorem startsPlainName_iff (l : Letter) :
    startsPlainName l ↔ l.isAlpha ∨ l = .char '_' ∨ l = .char '$' := by
  simp [startsPlainName, or_assoc]

/-- A plain name goes on with a letter, a digit, an underscore or a dollar sign. -/
theorem continuesPlainName_iff (l : Letter) :
    continuesPlainName l ↔ l.isAlpha ∨ l.isDigit ∨ l = .char '_' ∨ l = .char '$' := by
  -- What starts a name can stand in it, and so can digits.
  rw [continuesPlainName, Bool.or_eq_true, startsPlainName_iff]
  tauto

/-- A plain name is told letter by letter. -/
theorem isPlainName_cons {first : Letter} {rest : Text} :
    IsPlainName (first :: rest) ↔ startsPlainName first ∧ rest.all continuesPlainName := by
  simp [IsPlainName, startsPlainName_iff, continuesPlainName_iff]

/-- A key is plain if it is a plain name without its last newline. -/
theorem isPlainKey_iff_drop (text : Text) :
    isPlainKey text ↔ IsPlainName (dropFinalNewline text) := by
  -- An empty key is none.
  rw [isPlainKey]
  split
  · rename_i empty
    simp [empty, IsPlainName]
  · rename_i first rest split
    rw [split, isPlainName_cons, Bool.and_eq_true]

/-- All letters of a plain name are such letters. -/
theorem continuesPlainName_of_mem (plain : IsPlainName name) {l : Letter} (held : l ∈ name) :
    continuesPlainName l := by
  -- The first letter is one of those that start a name.
  obtain ⟨first, rest, rfl, starts, continues⟩ := plain
  rw [continuesPlainName_iff]
  rcases List.mem_cons.mp held with rfl | held
  · tauto
  · exact continues l held

/-- A name has no newline at its end. -/
theorem IsPlainName.not_endsInNewline (plain : IsPlainName name) : ¬EndsInNewline name := by
  -- A newline is none of the letters of a name.
  intro ends
  have continues := continuesPlainName_of_mem plain (List.mem_of_getLast? ends)
  exact absurd continues (by decide)

/-- Without a newline at its end a text stays as it is. -/
theorem dropFinalNewline_eq_self (plain : ¬EndsInNewline text) : dropFinalNewline text = text :=
  if_neg plain

/-- A newline at the end is taken away. -/
theorem dropFinalNewline_concat (text : Text) :
    dropFinalNewline (text ++ [.char '\n']) = text := by
  rw [dropFinalNewline, List.getLast?_concat, if_pos rfl, List.dropLast_concat]

/-- The test of a key lets names through, and names with a newline behind them. -/
theorem isPlainKey_iff (text : Text) : isPlainKey text ↔ IsKeyText text := by
  rw [isPlainKey_iff_drop, IsKeyText]
  constructor
  · -- The test looks at the text without its last newline, if it has one.
    intro plain
    by_cases ends : EndsInNewline text
    · refine .inr ⟨_, plain, ?_⟩
      have newline : finalNewline text = [.char '\n'] := if_pos ends
      rw [← newline, dropFinalNewline_append]
    · rw [dropFinalNewline_eq_self ends] at plain
      exact .inl plain
  · rintro (plain | ⟨name, plain, rfl⟩)
    · rwa [dropFinalNewline_eq_self plain.not_endsInNewline]
    · rwa [dropFinalNewline_concat]

/-- Of the strings that are let through, those without a newline at their end are names. -/
theorem IsKeyText.isPlainName_iff (key : IsKeyText text) :
    IsPlainName text ↔ ¬EndsInNewline text := by
  -- What is let through is a name, or one with a newline behind it.
  refine ⟨IsPlainName.not_endsInNewline, fun ends => ?_⟩
  rcases key with plain | ⟨name, _, rfl⟩
  · exact plain
  · exact absurd (List.getLast?_concat ..) ends

/-- A name is a word of the grammar. -/
theorem IsPlainName.isWord (plain : IsPlainName name) : isWord name := by
  -- Letters, digits, the underscore and the dollar sign all go on with a word.
  have other : ∀ l, continuesPlainName l → Text.continuesWord l ∧ l ≠ .char '\\' := by
    intro l continues
    refine ⟨?_, ?_⟩
    · rcases (continuesPlainName_iff l).mp continues with h | h | rfl | rfl
      · simp [Text.continuesWord, Text.startsWord, h]
      · simp [Text.continuesWord, h]
      · decide
      · decide
    · rintro rfl
      exact absurd continues (by decide)
  have all := fun l held => other l (continuesPlainName_of_mem plain held)
  obtain ⟨first, rest, rfl, starts, _⟩ := plain
  have opens : Text.startsWord first := by
    rcases starts with alpha | rfl | rfl
    · simp [Text.startsWord, alpha]
    · decide
    · decide
  simp only [Grammar.isWord, Bool.and_eq_true, decide_eq_true_eq, List.all_eq_true]
  exact ⟨⟨opens, (all first List.mem_cons_self).2⟩,
    fun l held => all l (List.mem_cons_of_mem _ held)⟩

end Names

section Properties

variable {key property t : Tree} {name : Text}

/-- What a key names: the property with the name of an identifier, or with the value of a string. -/
def Tree.keyName (key : Tree) : Text :=
  if key.isIdentifier then key.name else key.stringValue?.getD []

/-- A key that names a property by itself: an identifier or a string. -/
def Tree.IsKey (key : Tree) : Prop := key.isIdentifier ∨ key.stringValue?.isSome

/-- A key that can be listed: an identifier, or a string that is let through. -/
def Tree.IsListed (key : Tree) : Prop :=
  key.isIdentifier ∨ ∃ text, key.stringValue? = some text ∧ IsKeyText text

/-- The name that a value consists of. -/
def Tree.plainName? (value : Tree) : Option Text :=
  if value.isIdentifier then some value.name else none

/-- The keys of an object pattern or literal that are written as strings. -/
def Tree.quotedKeys (t : Tree) : List Text :=
  (t.get "properties").items.filterMap fun property => (property.get "key").stringValue?

/-- A property with a key that is not computed. -/
def Tree.isPlainProperty (property : Tree) : Bool :=
  property.isA "Property" && !(property.get "computed").isSet

/-- A property of an object literal that is a key and its value. -/
def Tree.isPlainEntry (property : Tree) : Bool :=
  property.isPlainProperty && !(property.get "method").isSet && (property.get "kind").isText "init"

/-- An identifier is no string. -/
theorem stringValue?_of_isIdentifier (isName : key.isIdentifier) : key.stringValue? = none := by
  -- A string value is asked of literals only.
  rw [Tree.isIdentifier, Tree.isA, beq_iff_eq] at isName
  simp [Tree.stringValue?, Tree.isA, isName]

/-- The key of a property that can be listed, and no other, is given by its name. -/
theorem propertyKey?_eq_some_iff :
    propertyKey? key = some name ↔ key.IsListed ∧ name = key.keyName := by
  -- An identifier is always taken, a string if it is let through.
  rw [propertyKey?, Tree.IsListed, Tree.keyName]
  split
  · rename_i isName
    simp [isName, eq_comm]
  · rename_i noName
    rw [Option.filter_eq_some_iff, isPlainKey_iff]
    constructor
    · rintro ⟨found, isKey⟩
      simp [found, isKey]
    · rintro ⟨listed, rfl⟩
      obtain ⟨text, found, isKey⟩ := listed.resolve_left noName
      simp [found, isKey]

/-- Which properties of a pattern are taken, and as which pair. -/
theorem patternPair?_eq_some_iff {pair : Text × Text} :
    patternPair? property = some pair ↔
      (property.isPlainProperty ∧ (property.get "value").isIdentifier ∧
        (property.get "key").IsListed) ∧
      pair = ((property.get "key").keyName, (property.get "value").name) := by
  -- All conditions are checked one after the other.
  have form : patternPair? property = some pair ↔ property.isPlainProperty ∧
      (property.get "value").isIdentifier ∧
      ∃ name, propertyKey? (property.get "key") = some name ∧
        pair = (name, (property.get "value").name) := by
    rw [patternPair?, ← Tree.isPlainProperty]
    cases property.isPlainProperty <;> cases (property.get "value").isIdentifier <;>
      cases propertyKey? (property.get "key") <;> simp [eq_comm]
  simp only [form, propertyKey?_eq_some_iff, and_assoc, ↓exists_and_left, exists_eq_left]

/-- Which properties of an object are taken, and as which entry. -/
theorem ofProperty?_eq_some_iff {entry : Text × Option Text} :
    ExportMap.ofProperty? property = some entry ↔
      (property.isPlainEntry ∧ (property.get "key").IsListed) ∧
      entry = ((property.get "key").keyName, (property.get "value").plainName?) := by
  -- All conditions are checked one after the other.
  have form : ExportMap.ofProperty? property = some entry ↔ property.isPlainEntry ∧
      ∃ name, propertyKey? (property.get "key") = some name ∧
        entry = (name, (property.get "value").plainName?) := by
    rw [ExportMap.ofProperty?, ← Tree.isPlainProperty, ← Tree.isPlainEntry, ← Tree.plainName?]
    cases property.isPlainEntry <;> cases propertyKey? (property.get "key") <;> grind
  simp only [form, propertyKey?_eq_some_iff, and_assoc, ↓exists_and_left, exists_eq_left]

/-- Items that are each taken on a condition are all taken if all meet it. -/
theorem mapM_eq_some_iff {α β : Type} {f : α → Option β} {g : α → β} {accepted : α → Prop}
    (each : ∀ a b, f a = some b ↔ accepted a ∧ b = g a) (items : List α) (results : List β) :
    items.mapM f = some results ↔ (∀ a ∈ items, accepted a) ∧ results = items.map g := by
  -- One item that is refused refuses the whole list.
  induction items generalizing results with
  | nil => simp [eq_comm]
  | cons a rest ih =>
    rw [List.mapM_cons]
    constructor
    · intro taken
      obtain ⟨b, here, later⟩ := Option.bind_eq_some_iff.mp taken
      obtain ⟨others, there, made⟩ := Option.bind_eq_some_iff.mp later
      obtain ⟨isTaken, rfl⟩ := (each a b).mp here
      obtain ⟨areTaken, rfl⟩ := (ih others).mp there
      exact ⟨List.forall_mem_cons.mpr ⟨isTaken, areTaken⟩, (Option.some.inj made).symm⟩
    · rintro ⟨areTaken, rfl⟩
      rw [(each a _).mpr ⟨areTaken a List.mem_cons_self, rfl⟩,
        (ih _).mpr ⟨fun b held => areTaken b (List.mem_cons_of_mem _ held), rfl⟩]
      rfl

/-- A pattern of plain properties, each with a key that is a name or a string and a name as its
value. -/
def Tree.IsFlatPattern (t : Tree) : Prop :=
  ∀ property ∈ (t.get "properties").items, property.isPlainProperty ∧
    (property.get "value").isIdentifier ∧ (property.get "key").IsKey

/-- An object literal of plain entries, each with a key that is a name or a string. -/
def Tree.IsPlainObject (t : Tree) : Prop :=
  ∀ property ∈ (t.get "properties").items, property.isPlainEntry ∧ (property.get "key").IsKey

/-- The properties that a pattern names, each with the name it is bound to. -/
def Tree.namedPairs (t : Tree) : List (Text × Text) :=
  (t.get "properties").items.map fun property =>
    ((property.get "key").keyName, (property.get "value").name)

/-- The properties that an object literal names, each with the name that is its value. -/
def Tree.namedEntries (t : Tree) : List (Text × Option Text) :=
  (t.get "properties").items.map fun property =>
    ((property.get "key").keyName, (property.get "value").plainName?)

/-- A quoted key is the string that some property has for its key. -/
theorem mem_quotedKeys : name ∈ t.quotedKeys ↔
    ∃ property ∈ (t.get "properties").items, (property.get "key").stringValue? = some name :=
  List.mem_filterMap

/-- A key can be listed if it names a property, and is let through in case it is a string. -/
theorem isListed_iff (key : Tree) : key.IsListed ↔
    key.IsKey ∧ ∀ text, key.stringValue? = some text → IsKeyText text := by
  -- A key that is an identifier has no string value, so nothing is asked of one.
  rw [Tree.IsListed, Tree.IsKey]
  constructor
  · rintro (isName | ⟨text, found, isKey⟩)
    · exact ⟨.inl isName, fun text found => by simp [stringValue?_of_isIdentifier isName] at found⟩
    · refine ⟨.inr (by simp [found]), fun other same => ?_⟩
      rwa [← Option.some.inj (found.symm.trans same)]
  · rintro ⟨isName | isString, keys⟩
    · exact .inl isName
    · obtain ⟨text, found⟩ := Option.isSome_iff_exists.mp isString
      exact .inr ⟨text, found, keys text found⟩

/-- The key of a property can be listed if the strings among all the keys are let through. -/
theorem isListed_of_mem (keys : ∀ key ∈ t.quotedKeys, IsKeyText key)
    (known : property ∈ (t.get "properties").items) (isKey : (property.get "key").IsKey) :
    (property.get "key").IsListed :=
  (isListed_iff _).mpr ⟨isKey, fun text found =>
    keys text (mem_quotedKeys.mpr ⟨property, known, found⟩)⟩

/-- Which patterns are taken apart, and into which pairs. -/
theorem patternPairs?_eq_some_iff {pairs : List (Text × Text)} :
    patternPairs? t = some pairs ↔
      (t.IsFlatPattern ∧ ∀ key ∈ t.quotedKeys, IsKeyText key) ∧ pairs = t.namedPairs := by
  -- Each property has to be taken; what that asks is sorted by properties and keys.
  rw [patternPairs?, mapM_eq_some_iff fun _ _ => patternPair?_eq_some_iff, Tree.namedPairs]
  refine and_congr_left fun _ => ?_
  simp only [isListed_iff, Tree.IsFlatPattern, mem_quotedKeys]
  grind

/-- Which object literals exports are made of, and which entries they have. -/
theorem ofObject?_eq_some_iff {m : ExportMap} :
    ExportMap.ofObject? t = some m ↔
      (t.IsPlainObject ∧ ∀ key ∈ t.quotedKeys, IsKeyText key) ∧ m.entries = t.namedEntries := by
  -- Each property has to be taken; what that asks is sorted by properties and keys.
  obtain ⟨entries⟩ := m
  have form : ExportMap.ofObject? t = some ⟨entries⟩ ↔
      (t.get "properties").items.mapM ExportMap.ofProperty? = some entries := by
    simp [ExportMap.ofObject?]
  rw [form, mapM_eq_some_iff fun _ _ => ofProperty?_eq_some_iff, Tree.namedEntries]
  refine and_congr_left fun _ => ?_
  simp only [isListed_iff, Tree.IsPlainObject, mem_quotedKeys]
  grind

end Properties

section Printed

variable {t : Tree} {name : Text}

/-- The identifiers among the keys and values are words. -/
def Tree.HasWords (t : Tree) : Prop :=
  ∀ property ∈ (t.get "properties").items,
    ((property.get "key").isIdentifier → isWord (property.get "key").name) ∧
      ((property.get "value").isIdentifier → isWord (property.get "value").name)

instance (t : Tree) : Decidable t.HasWords :=
  inferInstanceAs (Decidable (∀ property ∈ (t.get "properties").items, _))

/-- A word has no newline at its end. -/
theorem not_endsInNewline_of_isWord (word : isWord name) : ¬EndsInNewline name := by
  -- A newline does not go on a word.
  intro ends
  have all : ∀ l ∈ name, Text.continuesWord l := by
    cases name with
    | nil => cases word
    | cons first more =>
      simp only [Grammar.isWord, Bool.and_eq_true, List.all_eq_true] at word
      obtain ⟨⟨starts, _⟩, continues⟩ := word
      refine List.forall_mem_cons.mpr ⟨?_, fun l held => (continues l held).1⟩
      simp [Text.continuesWord, starts]
  exact absurd (all _ (List.mem_of_getLast? ends)) (by decide)

/-- A text stays as it is only if it has no newline at its end. -/
theorem dropFinalNewline_eq_self_iff (text : Text) :
    dropFinalNewline text = text ↔ ¬EndsInNewline text := by
  -- Taking a newline away makes the text shorter.
  refine ⟨fun same ends => ?_, dropFinalNewline_eq_self⟩
  have shorter := congrArg List.length (dropFinalNewline_append text)
  have newline : finalNewline text = [.char '\n'] := if_pos ends
  rw [same, newline, List.length_append] at shorter
  simp at shorter

/-- Pairs are read as they were meant if none of their names ends in a newline. -/
theorem map_shownPair_eq_self_iff (pairs : List (Text × Text)) :
    pairs.map shownPair = pairs ↔
      ∀ pair ∈ pairs, ¬EndsInNewline pair.1 ∧ ¬EndsInNewline pair.2 := by
  -- Each name is read without the newline at its end.
  induction pairs with
  | nil => simp
  | cons pair more ih =>
    rw [List.map_cons, List.cons.injEq, ih, List.forall_mem_cons, shownPair, Prod.ext_iff,
      dropFinalNewline_eq_self_iff, dropFinalNewline_eq_self_iff]

/-- What is printed of a key is a word, up to a newline behind it. -/
theorem isWord_keyName {key : Tree} (listed : key.IsListed)
    (word : key.isIdentifier → isWord key.name) : isWord (dropFinalNewline key.keyName) := by
  -- An identifier is a word already; a string is let through as a plain name, up to a newline.
  rw [Tree.keyName]
  split
  · rename_i isName
    rw [dropFinalNewline_eq_self (not_endsInNewline_of_isWord (word isName))]
    exact word isName
  · rename_i noName
    obtain ⟨text, found, isKey⟩ := listed.resolve_left noName
    rw [found, Option.getD_some]
    exact ((isPlainKey_iff_drop text).mp ((isPlainKey_iff text).mpr isKey)).isWord

/-- Only keys that are strings can end in a newline. -/
theorem forall_keyName_iff
    (keyed : ∀ property ∈ (t.get "properties").items, (property.get "key").IsKey)
    (words : t.HasWords) :
    (∀ property ∈ (t.get "properties").items, ¬EndsInNewline (property.get "key").keyName) ↔
      ∀ key ∈ t.quotedKeys, ¬EndsInNewline key := by
  constructor
  · -- A key that is a string is no identifier, so it is named by its text.
    intro none key held
    obtain ⟨property, known, found⟩ := mem_quotedKeys.mp held
    have noName : ¬(property.get "key").isIdentifier := fun isName => by
      simp [stringValue?_of_isIdentifier isName] at found
    have named := none property known
    rwa [Tree.keyName, if_neg noName, found] at named
  · intro none property known
    rw [Tree.keyName]
    split
    · rename_i isName
      exact not_endsInNewline_of_isWord ((words property known).1 isName)
    · rename_i noName
      obtain ⟨text, found⟩ := Option.isSome_iff_exists.mp
        ((keyed property known).resolve_left noName)
      rw [found]
      exact none text (mem_quotedKeys.mpr ⟨property, known, found⟩)

/-- A statement is printed, and its text is read as a list of names. -/
def ReadAs (read : Text → Except Fault (List (Text × Text))) (statement : Except EmitError Text)
    (names : List (Text × Text)) : Prop :=
  ∃ text, statement = .ok text ∧ read text = .ok names

/-- A printed statement is read in one way only. -/
theorem readAs_iff {read : Text → Except Fault (List (Text × Text))}
    {statement : Except EmitError Text} {names others : List (Text × Text)}
    (reads : ReadAs read statement names) : ReadAs read statement others ↔ names = others := by
  -- The statement has one text, and the text one reading.
  obtain ⟨text, printed, isRead⟩ := reads
  refine ⟨fun reads => ?_, fun same => ⟨text, printed, same ▸ isRead⟩⟩
  obtain ⟨other, again, asOther⟩ := reads
  cases again.symm.trans printed
  exact Except.ok.inj (isRead.symm.trans asOther)

/-- The import made of a pattern is read as the keys without a newline at their end, and so as the
keys that were meant if no string among them has one. -/
theorem importNamed_readAs {pairs : List (Text × Text)} (lowered : patternPairs? t = some pairs)
    (some_ : pairs ≠ []) (words : t.HasWords) (bindable : ∀ pair ∈ pairs, isBindable pair.2)
    {source : Source} {origin : Tree} {literal : Text}
    (written : render source origin = .ok literal) :
    ReadAs importedNames (render source (.importNamed pairs origin)) (pairs.map shownPair) ∧
      (ReadAs importedNames (render source (.importNamed pairs origin)) pairs ↔
        ∀ key ∈ t.quotedKeys, ¬EndsInNewline key) := by
  obtain ⟨⟨flat, keys⟩, rfl⟩ := patternPairs?_eq_some_iff.mp lowered
  -- Names that are bound are words, so only the keys can end in a newline.
  have bound : ∀ pair ∈ t.namedPairs, ¬EndsInNewline pair.2 := by
    intro pair held
    have bindable := bindable pair held
    rw [isBindable, Bool.and_eq_true] at bindable
    exact not_endsInNewline_of_isWord bindable.1
  have good : ∀ pair ∈ t.namedPairs, isWord (dropFinalNewline pair.1) ∧
      isBindable (dropFinalNewline pair.2) := by
    intro pair held
    rw [dropFinalNewline_eq_self (bound pair held)]
    refine ⟨?_, bindable pair held⟩
    obtain ⟨property, known, rfl⟩ := List.mem_map.mp held
    exact isWord_keyName (isListed_of_mem keys known (flat property known).2.2)
      (words property known).1
  have reads : ReadAs importedNames (render source (.importNamed t.namedPairs origin))
      (t.namedPairs.map shownPair) :=
    ⟨_, render_importNamed written some_, importedNames_printed some_ good literal⟩
  refine ⟨reads, ?_⟩
  rw [readAs_iff reads, map_shownPair_eq_self_iff,
    ← forall_keyName_iff (fun property known => (flat property known).2.2) words]
  constructor
  · exact fun none property known => (none _ (List.mem_map.mpr ⟨property, known, rfl⟩)).1
  · intro none pair held
    refine ⟨?_, bound pair held⟩
    obtain ⟨property, known, rfl⟩ := List.mem_map.mp held
    exact none property known

/-- The export made of an object literal is read as the keys without a newline at their end. -/
theorem exportNamed_readAs {m : ExportMap} (lowered : ExportMap.ofObject? t = some m)
    (some_ : m.namedExports ≠ []) (words : t.HasWords) (source : Source) :
    ReadAs exportedNames (render source (.exportNamed m.namedExports))
        (m.namedExports.map shownPair) ∧
      (ReadAs exportedNames (render source (.exportNamed m.namedExports)) m.namedExports ↔
        ∀ pair ∈ m.namedExports, ¬EndsInNewline pair.2) := by
  obtain ⟨⟨plain, keys⟩, entries⟩ := ofObject?_eq_some_iff.mp lowered
  -- Each exported pair is an entry of the literal.
  have each : ∀ pair ∈ m.namedExports, isWord pair.1 ∧ isWord (dropFinalNewline pair.2) := by
    rintro ⟨bound, key⟩ held
    obtain ⟨before, after, split, _⟩ := (ExportMap.mem_namedExports.mp held).2
    have member : (key, some bound) ∈ t.namedEntries := by
      rw [← entries, split]
      simp
    obtain ⟨property, known, same⟩ := List.mem_map.mp member
    obtain ⟨rfl, isBound⟩ := Prod.mk.inj same
    refine ⟨?_, isWord_keyName (isListed_of_mem keys known (plain property known).2)
      (words property known).1⟩
    rw [Tree.plainName?, Option.ite_none_right_eq_some] at isBound
    rw [← Option.some.inj isBound.2]
    exact (words property known).2 isBound.1
  have good : ∀ pair ∈ m.namedExports, isWord (dropFinalNewline pair.1) ∧
      isWord (dropFinalNewline pair.2) := by
    intro pair held
    rw [dropFinalNewline_eq_self (not_endsInNewline_of_isWord (each pair held).1)]
    exact each pair held
  have reads : ReadAs exportedNames (render source (.exportNamed m.namedExports))
      (m.namedExports.map shownPair) :=
    ⟨_, render_exportNamed _, exportedNames_printed some_ good⟩
  refine ⟨reads, ?_⟩
  rw [readAs_iff reads, map_shownPair_eq_self_iff]
  exact ⟨fun none pair held => (none pair held).2, fun none pair held =>
    ⟨not_endsInNewline_of_isWord (each pair held).1, none pair held⟩⟩

end Printed

/-- A pattern or an object literal is lowered if it has the form for it and each string among its
keys is a name, alone or with a newline behind it. All of these are names if and only if none ends
in a newline; and then, and only then, the printed list is read as the names that were meant. What
is read are the names without that newline. -/
theorem quotedKeys_kept_iff (t : Tree) :
    (∀ pairs, patternPairs? t = some pairs ↔
      (t.IsFlatPattern ∧ ∀ key ∈ t.quotedKeys, IsKeyText key) ∧ pairs = t.namedPairs) ∧
    (∀ m, ExportMap.ofObject? t = some m ↔
      (t.IsPlainObject ∧ ∀ key ∈ t.quotedKeys, IsKeyText key) ∧ m.entries = t.namedEntries) ∧
    ((patternPairs? t).isSome ∨ (ExportMap.ofObject? t).isSome →
      ((∀ key ∈ t.quotedKeys, IsPlainName key) ↔ ∀ key ∈ t.quotedKeys, ¬EndsInNewline key)) ∧
    (∀ pairs source origin literal, patternPairs? t = some pairs → pairs ≠ [] → t.HasWords →
      (∀ pair ∈ pairs, isBindable pair.2) → render source origin = .ok literal →
      ReadAs importedNames (render source (.importNamed pairs origin)) (pairs.map shownPair) ∧
      (ReadAs importedNames (render source (.importNamed pairs origin)) pairs ↔
        ∀ key ∈ t.quotedKeys, ¬EndsInNewline key)) ∧
    (∀ m source, ExportMap.ofObject? t = some m → m.namedExports ≠ [] → t.HasWords →
      ReadAs exportedNames (render source (.exportNamed m.namedExports))
        (m.namedExports.map shownPair) ∧
      (ReadAs exportedNames (render source (.exportNamed m.namedExports)) m.namedExports ↔
        ∀ pair ∈ m.namedExports, ¬EndsInNewline pair.2)) := by
  refine ⟨fun _ => patternPairs?_eq_some_iff, fun _ => ofObject?_eq_some_iff, fun lowered => ?_,
    fun _ _ _ _ lowered some_ words bindable written =>
      importNamed_readAs lowered some_ words bindable written,
    fun _ source lowered some_ words => exportNamed_readAs lowered some_ words source⟩
  -- Either way of lowering has let every string through.
  have keys : ∀ key ∈ t.quotedKeys, IsKeyText key := by
    rcases lowered with pattern | object
    · obtain ⟨_, pattern⟩ := Option.isSome_iff_exists.mp pattern
      exact (patternPairs?_eq_some_iff.mp pattern).1.2
    · obtain ⟨_, object⟩ := Option.isSome_iff_exists.mp object
      exact (ofObject?_eq_some_iff.mp object).1.2
  exact forall₂_congr fun key held => (keys key held).isPlainName_iff

/-- Of three keys the one with a newline at its end is read as another one. -/
theorem quotedKeys_kept_iff_mixed :
    let property (key : Tree) (bound : Text) : Tree := .synthetic "Property"
      [("key", key), ("computed", .flag false), ("value", .identifier bound),
        ("kind", .text "init"), ("method", .flag false), ("shorthand", .flag false)]
    let t : Tree := .synthetic "ObjectPattern" [("properties", .list
      [property (.identifier "a") "x", property (.stringLiteral '\'' "b") "y",
        property (.stringLiteral '\'' "c\n") "z"])]
    let origin : Tree := .stringLiteral '\'' "m"
    let pairs : List (Text × Text) := [("a", "x"), ("b", "y"), ("c\n", "z")]
    let m : ExportMap := ⟨[("a", some "x"), ("b", some "y"), ("c\n", some "z")]⟩
    patternPairs? t = some pairs ∧ ExportMap.ofObject? t = some m ∧ t.HasWords ∧
      (∀ pair ∈ pairs, isBindable pair.2) ∧ render #[] origin = .ok "'m'" ∧
      ¬(∀ key ∈ t.quotedKeys, IsPlainName key) ∧
      ReadAs importedNames (render #[] (.importNamed pairs origin))
        [("a", "x"), ("b", "y"), ("c", "z")] ∧
      ¬ReadAs importedNames (render #[] (.importNamed pairs origin)) pairs ∧
      ReadAs exportedNames (render #[] (.exportNamed m.namedExports))
        [("x", "a"), ("y", "b"), ("z", "c")] ∧
      ¬ReadAs exportedNames (render #[] (.exportNamed m.namedExports)) m.namedExports := by
  intro property t origin pairs m
  have lowered : patternPairs? t = some pairs := by decide
  have listed : ExportMap.ofObject? t = some m := by decide
  have words : t.HasWords := by decide
  have bindable : ∀ pair ∈ pairs, isBindable pair.2 := by decide
  have written : render #[] origin = .ok "'m'" := by
    rw [render]
    rfl
  -- The third key is let through, but is not the name that is read.
  have newline : ¬∀ key ∈ t.quotedKeys, ¬EndsInNewline key := by decide
  have exported : ¬∀ pair ∈ m.namedExports, ¬EndsInNewline pair.2 := by decide
  obtain ⟨_, _, names, imports, exports⟩ := quotedKeys_kept_iff t
  obtain ⟨imported, asMeant⟩ :=
    imports pairs #[] origin _ lowered (by decide) words bindable written
  obtain ⟨passedOn, asListed⟩ := exports m #[] listed (by decide) words
  have all := names (.inl (by rw [lowered]; rfl))
  exact ⟨lowered, listed, words, bindable, written, fun plain => newline (all.mp plain),
    imported, fun same => newline (asMeant.mp same), passedOn,
    fun same => exported (asListed.mp same)⟩

/-- A key with a newline at its end is no name and is lowered all the same: what is printed for it
imports and exports another property than the one that was named. -/
theorem quotedKey_newline_lowered :
    let t : Tree := .synthetic "ObjectPattern" [("properties", .list [.synthetic "Property"
      [("key", .stringLiteral '\'' "a\n"), ("computed", .flag false),
        ("value", .identifier "x"), ("kind", .text "init"), ("method", .flag false),
        ("shorthand", .flag false)]])]
    let origin : Tree := .stringLiteral '\'' "m"
    let pairs : List (Text × Text) := [("a\n", "x")]
    let m : ExportMap := ⟨[("a\n", some "x")]⟩
    t.quotedKeys = [Text.ofString "a\n"] ∧ ¬IsPlainName "a\n" ∧ patternPairs? t = some pairs ∧
      ReadAs importedNames (render #[] (.importNamed pairs origin)) [("a", "x")] ∧
      ExportMap.ofObject? t = some m ∧
      ReadAs exportedNames (render #[] (.exportNamed m.namedExports)) [("x", "a")] := by
  intro t origin pairs m
  have written : render #[] origin = .ok "'m'" := by
    rw [render]
    rfl
  have noName : ¬IsPlainName "a\n" := fun plain => plain.not_endsInNewline (by decide)
  -- The lists are printed as they are; reading them leaves the newline out.
  have imported := @importedNames_printed pairs (by decide) (by decide) "'m'"
  have exported := @exportedNames_printed m.namedExports (by decide) (by decide)
  exact ⟨by decide, noName, by decide, ⟨_, render_importNamed written (by decide), imported⟩,
    by decide, ⟨_, render_exportNamed _, exported⟩⟩

end ModuleLift
