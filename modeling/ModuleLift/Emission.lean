import ModuleLift.Text.Ascii
import ModuleLift.Text.Space
import ModuleLift.Tree.Size
import ModuleLift.Tree.Walk

/-! Writing a program as text: what was read is copied, what was put in is printed. -/

namespace ModuleLift

/-- Why a tree cannot be written. -/
inductive EmitError where
  /-- A synthesized node of a kind that has no printed form. -/
  | noPrinter (kind : Option String)
  /-- A top-level statement that does not tell what text it stands for. -/
  | noRange
deriving DecidableEq, Repr, Inhabited

/-- The wording of a refusal. -/
def EmitError.message : EmitError → String
  | .noPrinter kind => "No printer for synthetic node: " ++ kind.getD "None"
  | .noRange => "'range'"

namespace Emission

/-- The text a program was read from, kept so that any stretch of it is at hand. -/
abbrev Source := Array Letter

/-- The letters of a source from `start` up to `stop`. -/
def slice (source : Source) (start stop : Nat) : Text := (source.extract start stop).toList

/-- A slice is what follows `start`, up to the length that is asked for. -/
theorem slice_eq (source : Source) (start stop : Nat) :
    slice source start stop = (source.toList.drop start).take (stop - start) := by
  simp only [slice, Array.toList_extract, List.extract_eq_take_drop]

/-- What stands before an offset on its line, put before what is known to follow. -/
def lineBefore (source : Source) (known : Text) : Nat → Text
  | 0 => known
  | offset + 1 =>
    match source[offset]? with
    | some l => if l = '\n' then known else lineBefore source (l :: known) offset
    | none => known

/-- What stands before an offset on its line; past the end that is what stands on the last line. -/
def lineStart (source : Source) (offset : Nat) : Text :=
  lineBefore source [] (min offset source.size)

/-- The white space before an offset on its line; none if something else stands there too. -/
def indentAt (source : Source) (offset : Nat) : Option Text :=
  let before := lineStart source offset
  -- Only a node that is the first on its line can have a line put before it.
  if before.all Text.isSpace then some before else none

/-- A comment: on a line of its own if there is an indent to repeat, else in the line. -/
def commentText (indent : Option Text) (text : Text) : Text :=
  match indent with
  | some indent => "// " ++ text ++ "\n" ++ indent
  | none => "/* " ++ text ++ " */ "

/-- The comments before a node. -/
def commentsBefore (source : Source) (t : Tree) : Text :=
  -- The indent is looked for only if there is a comment to be put on a line.
  if t.mark.comments.isEmpty then []
  else t.mark.comments.flatMap (commentText (t.region?.bind fun r => indentAt source r.start))

/-- Puts pieces of text into a stretch of the source, each in the place of its region. A piece that
starts before the end of the piece before it is left out. -/
def weave (source : Source) (cursor stop : Nat) : List (Region × Text) → Text
  | [] => slice source cursor stop
  | (region, text) :: rest =>
    -- Two pieces of one region would repeat its text.
    if region.start < cursor then weave source cursor stop rest
    else slice source cursor region.start ++ text ++ weave source region.stop stop rest

/-- A value and its region, if the value is a node that was read. -/
def ranged? (t : Tree) : Option (Region × Tree) := t.range?.map fun region => (region, t)

/-- The nodes read that a field holds, itself or in a list. -/
def rangedIn (field : String × Tree) : List (Region × Tree) :=
  if Tree.isNoteKey field.1 then []
  else
    match field.2 with
    | .list items => items.filterMap ranged?
    | value => (ranged? value).toList

/-- The nodes read directly below a node, in the order in which they stand in the text. -/
def rangedChildren (fields : List (String × Tree)) : List (Region × Tree) :=
  -- Fields need not be in the order of the text; of two at one place the first stays first.
  (fields.flatMap rangedIn).mergeSort fun a b => a.1.start ≤ b.1.start

/-- A node read below another is smaller than it. -/
theorem sizeOf_lt_of_mem_rangedChildren {kind : Option String} {mark : Mark}
    {fields : List (String × Tree)} {child : Region × Tree}
    (member : child ∈ rangedChildren fields) :
    sizeOf child.2 < sizeOf (Tree.node kind mark fields) := by
  -- A child is the value of a field or an item of a list that is such a value.
  simp only [rangedChildren, List.mem_mergeSort, List.mem_flatMap] at member
  obtain ⟨⟨key, value⟩, held, inside⟩ := member
  have small : sizeOf value < sizeOf fields := by
    have bound := List.sizeOf_lt_of_mem held
    simp only [Prod.mk.sizeOf_spec] at bound
    omega
  have within : sizeOf child.2 ≤ sizeOf value := by
    simp only [rangedIn] at inside
    split at inside
    · simp at inside
    · split at inside
      · rename_i items
        obtain ⟨item, itemHeld, found⟩ := List.mem_filterMap.mp inside
        simp only [ranged?, Option.map_eq_some_iff] at found
        obtain ⟨region, _, rfl⟩ := found
        have bound := List.sizeOf_lt_of_mem itemHeld
        simp only [Tree.list.sizeOf_spec]
        omega
      · simp only [ranged?, Option.mem_toList, Option.map_eq_some_iff] at inside
        obtain ⟨region, _, rfl⟩ := inside
        exact Nat.le_refl _
  simp only [Tree.node.sizeOf_spec]
  omega

/-- The text of a node that was read: its stretch of the source, put together anew from what lies
below it if a comment was added there. -/
def readText (source : Source) : Tree → Text
  | .node kind mark fields =>
    let region := mark.range.getD default
    commentsBefore source (.node kind mark fields) ++
      -- Without a comment below there is nothing to weave in.
      if mark.modified then
        weave source region.start region.stop
          ((rangedChildren fields).attach.map fun ⟨child, _⟩ => (child.1, readText source child.2))
      else slice source region.start region.stop
  | _ => []
termination_by t => sizeOf t
decreasing_by exact sizeOf_lt_of_mem_rangedChildren ‹_›

/-- A name and the name it goes by, which is left out if it is the same. -/
def aliasText (name other : Text) : Text :=
  if name = other then name else name ++ " as " ++ other

/-- A specifier of an import: either named inside the braces, or a clause of its own. -/
inductive Clause where
  | whole (text : Text)
  | named (text : Text)

/-- The text of a clause outside the braces. -/
def Clause.whole? : Clause → Option Text
  | .whole text => some text
  | .named _ => none

/-- The text of a clause inside the braces. -/
def Clause.named? : Clause → Option Text
  | .named text => some text
  | .whole _ => none

/-- Names in braces. -/
def braced (names : List Text) : Text :=
  "\x7b " ++ Text.commaSeparated names ++ " \x7d"

/-- The text of an import. -/
def importText (clauses : List Clause) (source : Text) : Text :=
  -- Names in braces come last, whatever their order among the clauses.
  let named := clauses.filterMap Clause.named?
  let all := clauses.filterMap Clause.whole? ++ (if named.isEmpty then [] else [braced named])
  if all.isEmpty then "import " ++ source ++ ";"
  else "import " ++ Text.commaSeparated all ++ " from " ++ source ++ ";"

/-- The text of a value that goes into a line as it is; what has no text of its own is no value. -/
def plainText : Tree → Text
  | .text value => value
  | .flag value => if value then "True" else "False"
  | .number value => Text.decimal value
  | _ => "None"

/-- The text of a node: copied if it was read, else printed by its kind. -/
def render (source : Source) (t : Tree) : Except EmitError Text :=
  -- What was read is never printed anew, so its own layout survives.
  if t.range?.isSome then .ok (readText source t)
  else (commentsBefore source t ++ ·) <$> match _hasKind : t.kind? with
    | some "ImportDeclaration" => do
      let origin ← render source (t.get "source")
      let clauses ← (t.get "specifiers").items.attach.mapM fun ⟨specifier, _⟩ => do
        let bound ← render source (specifier.get "local")
        if specifier.isA "ImportDefaultSpecifier" then return Clause.whole bound
        else if specifier.isA "ImportNamespaceSpecifier" then
          return Clause.whole ("* as " ++ bound)
        else
          let imported ← render source (specifier.get "imported")
          return Clause.named (aliasText imported bound)
      return importText clauses origin
    | some "ExportNamedDeclaration" =>
      if (t.get "declaration").isNull then do
        let names ← (t.get "specifiers").items.attach.mapM fun ⟨specifier, _⟩ => do
          let bound ← render source (specifier.get "local")
          let exported ← render source (specifier.get "exported")
          return aliasText bound exported
        return "export " ++ braced names ++ ";"
      else do
        let declaration ← render source (t.get "declaration")
        return "export " ++ declaration
    | some "ExportDefaultDeclaration" => do
      let declaration ← render source (t.get "declaration")
      return "export default " ++ declaration ++ ";"
    | some "VariableDeclaration" => do
      let declarators ← (t.get "declarations").items.attach.mapM fun ⟨declarator, _⟩ =>
        render source declarator
      return plainText (t.get "kind") ++ " " ++ Text.commaSeparated declarators ++ ";"
    | some "VariableDeclarator" => do
      let target ← render source (t.get "id")
      if (t.get "init").isNull then return target
      else
        let init ← render source (t.get "init")
        return target ++ " = " ++ init
    | some "CallExpression" => do
      let arguments ← (t.get "arguments").items.attach.mapM fun ⟨argument, _⟩ =>
        render source argument
      let callee ← render source (t.get "callee")
      return callee ++ "(" ++ Text.commaSeparated arguments ++ ")"
    | some "MemberExpression" => do
      let object ← render source (t.get "object")
      let property ← render source (t.get "property")
      if (t.get "computed").isSet then return object ++ "[" ++ property ++ "]"
      else return object ++ "." ++ property
    | some "MetaProperty" => do
      let outer ← render source (t.get "meta")
      let property ← render source (t.get "property")
      return outer ++ "." ++ property
    | some "Identifier" => .ok (t.get "name").textD
    | some "Literal" =>
      .ok (if (t.get "raw").isNull then Text.ascii (t.get "value") else (t.get "raw").textD)
    | kind => .error (.noPrinter kind)
termination_by sizeOf t
decreasing_by
  all_goals first
    | exact Tree.sizeOf_get_lt_of_kind _hasKind _
    | exact Tree.sizeOf_lt_of_kind_of_mem _hasKind ‹_›
    | exact Nat.lt_of_le_of_lt (Tree.sizeOf_get_le ..) (Tree.sizeOf_lt_of_kind_of_mem _hasKind ‹_›)

/-- A top-level statement as it is written. -/
structure Piece where
  /-- The text it stands for. -/
  region : Region
  /-- Whether it was put in between and stands for no text. -/
  inserted : Bool
  text : Text
deriving DecidableEq, Repr, Inhabited

/-- Whether a text starts with a line break. -/
def startsWithBreak (text : Text) : Bool :=
  Text.startsWith "\n" text || Text.startsWith "\r\n" text

/-- A stretch of the source, on a line of its own if that is due. -/
def afterBreak (due : Bool) (text : Text) : Text :=
  if due && !startsWithBreak text then '\n' :: text else text

/-- The text of a program: its statements, with what stands between them in the source. After one
that was put in a line break is due. -/
def compose (source : Source) (cursor : Nat) (due : Bool) : List Piece → Text
  | [] => afterBreak due (slice source cursor source.size)
  | piece :: rest =>
    afterBreak due (slice source cursor piece.region.start) ++ piece.text ++
      -- A piece put in between ends where it starts, so the cursor may not go back to it.
      compose source (max cursor piece.region.stop) piece.inserted rest

/-- A top-level statement in its written form. -/
def piece (source : Source) (t : Tree) : Except EmitError Piece :=
  match t.region? with
  | none => .error .noRange
  | some region => do
    let text ← render source t
    -- Only a synthesized statement can stand for no text at all.
    return { region, inserted := t.mark.span.isSome && region.start == region.stop, text }

/-- The text of a program without regard to its last line. -/
def programText (source : Source) (program : Tree) : Except EmitError Text := do
  let pieces ← (program.get "body").items.mapM (piece source)
  return compose source 0 false pieces

/-- A text with a newline at its end, unless it is empty. -/
def endLine (text : Text) : Text :=
  if text.isEmpty || text.getLast? = some (.char '\n') then text else text ++ "\n"

end Emission

/-- A written program. -/
structure Emitted where
  text : Text
  /-- Whether it differs from the source. -/
  changed : Bool
deriving DecidableEq, Repr, Inhabited

/-- Writes a program that was read from `source`. -/
def emit (source : Text) (finalNewline : Bool) (program : Tree) : Except EmitError Emitted := do
  let text ← Emission.programText source.toArray program
  let ended := if finalNewline then Emission.endLine text else text
  return { text := ended, changed := ended != source }

end ModuleLift
