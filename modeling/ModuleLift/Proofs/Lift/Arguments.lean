import ModuleLift.Proofs.Emission.Lexeme
import ModuleLift.Proofs.Emission.Recovery
import ModuleLift.Proofs.Lift.Step
import ModuleLift.Proofs.Scope.Complete

/-! The arguments of a factory are copied from the source one by one, with commas between them, and
with the comments that were put into them. Main statement: whichever reader told where the arguments
stand, each copy is read back as as many arguments as the argument has expressions, so the call
keeps its arguments if and only if none of them is a sequence. -/

namespace ModuleLift

open Emission

open scoped List

/-! Arguments as they are read. -/

section Spelling

/-- How many expressions a tree is written as, without the parentheses around it. -/
def arity (t : Tree) : Nat :=
  if t.isA "SequenceExpression" then (t.get "expressions").items.length else 1

/-- An expression as a reader gives it, with the lexemes that its stretch of the source is cut into.
What is asked is that ranges lie in each other and start with lexemes, and that the stretch is the
expression without parentheses around it: the commas in it that stand outside of brackets are those
between the expressions of a sequence. -/
structure Spelled (source : Text) (a : Tree) (cut : List Lexeme) : Prop where
  read : a.range?.isSome
  forward : a.readRegion.start ≤ a.readRegion.stop
  nested : ∀ part ∈ a.parts, part.Encloses
  text : spell cut = slice source.toArray a.readRegion.start a.readRegion.stop
  starts : ∀ part ∈ a.parts, part.range?.isSome →
    part.readRegion.start ∈ edges a.readRegion.start cut
  expressions : ∃ parts ∈ splitArguments [] (tokensOf cut), parts.length = arity a ∧ [] ∉ parts
  several : a.isA "SequenceExpression" → 2 ≤ arity a

instance (source : Text) (a : Tree) (cut : List Lexeme) : Decidable (Spelled source a cut) :=
  decidable_of_iff
    (a.range?.isSome ∧ a.readRegion.start ≤ a.readRegion.stop ∧
      (∀ part ∈ a.parts, part.Encloses) ∧
      spell cut = slice source.toArray a.readRegion.start a.readRegion.stop ∧
      (∀ part ∈ a.parts, part.range?.isSome →
        part.readRegion.start ∈ edges a.readRegion.start cut) ∧
      (∃ parts ∈ splitArguments [] (tokensOf cut), parts.length = arity a ∧ [] ∉ parts) ∧
      (a.isA "SequenceExpression" → 2 ≤ arity a))
    ⟨fun ⟨read, forward, nested, text, starts, expressions, several⟩ =>
      ⟨read, forward, nested, text, starts, expressions, several⟩,
      fun s => ⟨s.read, s.forward, s.nested, s.text, s.starts, s.expressions, s.several⟩⟩

/-- An argument is one expression unless it is a sequence. -/
theorem Spelled.arity_eq_one_iff {source : Text} {a : Tree} {cut : List Lexeme}
    (spelled : Spelled source a cut) : arity a = 1 ↔ a.isA "SequenceExpression" = false := by
  -- A sequence has two expressions at least.
  constructor
  · intro one
    by_contra sequence
    have several := spelled.several (by simpa using sequence)
    omega
  · intro other
    rw [arity, other]
    rfl

end Spelling

/-! Arguments as they are written. -/

section Printing

variable {source : Text} {a : Tree} {cut : List Lexeme}

/-- An argument is written as its stretch of the source, with the comments of some of its parts put
in where these start. Read back, it has the tokens it had. -/
structure Printed (source : Text) (a : Tree) (cut lexemes : List Lexeme) : Prop where
  text : readText source.toArray a = spell lexemes
  tokens : tokensOf lexemes = tokensOf cut
  comments : ∃ shown, shown <+~ a.parts.filter Tree.isCommented ∧
    Annotates source.toArray a.readRegion shown (spell lexemes)

/-- Comments are shown of nodes that were read only. -/
theorem range_of_mem_remarked {t u : Tree} (read : t.range?.isSome)
    (shown : u ∈ remarked (readFragments t)) : u.range?.isSome := by
  -- The recursion goes to the nodes read below, as writing does.
  match t with
  | .node kind mark fields =>
    rw [readFragments_node, remarked_remarks] at shown
    rcases List.mem_append.mp shown with own | below
    · rw [List.mem_singleton.mp (List.mem_filter.mp own).1]
      exact read
    · split at below
      · have among := (remarked_weaveFragments ..).subset below
        rw [List.flatMap_map] at among
        obtain ⟨child, held, inner⟩ := List.mem_flatMap.mp among
        obtain ⟨field, _, inside⟩ :=
          List.mem_flatMap.mp ((rangedChildren_perm fields).mem_iff.mp held)
        exact range_of_mem_remarked (by rw [range_of_mem_rangedIn inside]; rfl) inner
      · simp at below
termination_by sizeOf t
decreasing_by exact sizeOf_lt_of_mem_rangedChildren ‹_›

/-- An argument keeps its tokens, whatever comments were put into it. -/
theorem Spelled.exists_printed (spelled : Spelled source a cut)
    (remarks : ∀ part ∈ a.parts, ∀ text ∈ part.mark.comments, IsRemark text) :
    ∃ lexemes, Printed source a cut lexemes := by
  have covers := covers_readFragments a spelled.read spelled.forward spelled.nested
  have annotates := covers.annotates source.toArray
  have among := remarked_readFragments a
  -- Comments stand where nodes start, and so between lexemes.
  have part : ∀ t ∈ remarked (readFragments a), t ∈ a.parts := fun t shown =>
    (List.mem_filter.mp (among.subset shown)).1
  have ordered : (((remarked (readFragments a)).map (insertion source.toArray)).map
      Prod.fst).Pairwise (· ≤ ·) := by
    rw [List.map_map]
    exact List.pairwise_map.mpr annotates.ordered
  have inside : ∀ place ∈ (remarked (readFragments a)).map (insertion source.toArray),
      place.1 ∈ edges a.readRegion.start cut ∧ place.1 ≤ a.readRegion.stop :=
    List.forall_mem_map.mpr fun t shown =>
      ⟨spelled.starts t (part t shown) (range_of_mem_remarked spelled.read shown),
        (annotates.inside t shown).2⟩
  obtain ⟨lexemes, woven, tokens⟩ := exists_inserted spelled.text ordered inside
    (List.forall_mem_map.mpr fun t shown => exists_commentsBefore (remarks t (part t shown)))
  have text : readText source.toArray a = spell lexemes := by
    rw [readText_eq, woven]
    exact annotates.text_eq
  refine ⟨lexemes, text, tokens, _, among, ?_⟩
  rw [← text, readText_eq]
  exact annotates

/-- Lexemes of several arguments, with a comma and a blank between each two. -/
def separated (lists : List (List Lexeme)) : List Lexeme :=
  [.token comma, .blank " " (by decide)].intercalate lists

/-- Their text is that of the arguments with commas between them. -/
theorem spell_separated (lists : List (List Lexeme)) :
    spell (separated lists) = Text.commaSeparated (lists.map spell) := by
  -- Each list but the last has a comma and a blank behind it.
  rw [Text.commaSeparated, Text.joined, separated]
  induction lists with
  | nil => rfl
  | cons lexemes rest ih =>
    cases rest with
    | nil => simp
    | cons next others =>
      rw [List.intercalate_cons_cons, spell_append, spell_append, ih]
      simp only [List.map_cons, List.intercalate_cons_cons]
      rfl

/-- Their tokens are those of the arguments with commas between them. -/
theorem tokensOf_separated (lists : List (List Lexeme)) :
    tokensOf (separated lists) = [comma].intercalate (lists.map tokensOf) := by
  -- The blank behind a comma is no token.
  rw [separated]
  induction lists with
  | nil => rfl
  | cons lexemes rest ih =>
    cases rest with
    | nil => simp
    | cons next others =>
      rw [List.intercalate_cons_cons, tokensOf_append, tokensOf_append, ih]
      simp only [List.map_cons, List.intercalate_cons_cons]
      rfl

/-- A call of a name is written with copies of arguments that were read. -/
theorem render_call {source : Source} {arguments : List Tree} (name : Text)
    (read : ∀ a ∈ arguments, a.range?.isSome) :
    render source (.call (.identifier name) arguments) =
      .ok (name ++ "(" ++ Text.commaSeparated (arguments.map (readText source)) ++ ")") := by
  -- The arguments were read, so they are copied; the call itself is printed.
  have each : arguments.mapM (render source) = .ok (arguments.map (readText source)) := by
    refine mapM_eq_ok fun a held => ?_
    rw [render, if_pos (read a held)]
  have form : render source (.call (.identifier name) arguments) =
      (([] : Text) ++ ·) <$> (arguments.mapM (render source) >>= fun texts =>
        render source (.identifier name) >>= fun callee =>
          pure (callee ++ "(" ++ Text.commaSeparated texts ++ ")")) := by
    rw [Tree.call, render, if_neg (synthetic_unread _ _), ← attach_mapM]
    rfl
  rw [form, each, render_identifier]
  rfl

/-- The lexemes of a call. -/
def callLexemes (name : Text) (arguments : List (List Lexeme)) : List Lexeme :=
  [.token name, .token "("] ++ separated arguments ++ [.token ")"]

/-- A call of a name is written as its lexemes are spelled. -/
theorem render_eq_spell {arguments : List Tree} {cut printed : Tree → List Lexeme} (name : Text)
    (read : ∀ a ∈ arguments, a.range?.isSome)
    (known : ∀ a ∈ arguments, Printed source a (cut a) (printed a)) :
    render source.toArray (.call (.identifier name) arguments) =
      .ok (spell (callLexemes name (arguments.map printed))) := by
  -- The copies are spelled by the lexemes they are printed with.
  have texts : arguments.map (readText source.toArray) = (arguments.map printed).map spell := by
    rw [List.map_map]
    exact List.map_congr_left fun a held => (known a held).text
  rw [render_call name read, texts, callLexemes, spell_append, spell_append, spell_separated]
  simp [spell, Lexeme.text]

end Printing

end ModuleLift
