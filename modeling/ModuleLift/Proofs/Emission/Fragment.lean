import ModuleLift.Emission

/-! Written text with the origin of every stretch kept: copied, printed, or comments before a
node. -/

namespace ModuleLift.Emission

/-- A stretch of written text, by where it comes from. -/
inductive Fragment where
  /-- Letters of the source. -/
  | copied (region : Region)
  /-- Letters put in by a printed form. -/
  | printed (text : Text)
  /-- The comments before a node. -/
  | remarks (t : Tree)

/-- The letters of a fragment. -/
def Fragment.text (source : Source) : Fragment → Text
  | .copied region => slice source region.start region.stop
  | .printed text => text
  | .remarks t => commentsBefore source t

/-- The letters of some fragments. -/
def written (source : Source) (fragments : List Fragment) : Text :=
  fragments.flatMap (Fragment.text source)

section Written

variable (source : Source)

/-- No fragments have no letters. -/
@[simp] theorem written_nil : written source [] = [] := rfl

/-- Letters of fragments follow each other. -/
@[simp] theorem written_cons (first : Fragment) (rest : List Fragment) :
    written source (first :: rest) = first.text source ++ written source rest :=
  List.flatMap_cons

/-- The letters of two lists of fragments follow each other. -/
@[simp] theorem written_append (first rest : List Fragment) :
    written source (first ++ rest) = written source first ++ written source rest :=
  List.flatMap_append

/-- A copied fragment has the letters of its region. -/
@[simp] theorem text_copied (region : Region) :
    (Fragment.copied region).text source = slice source region.start region.stop := rfl

/-- A printed fragment has its own letters. -/
@[simp] theorem text_printed (text : Text) : (Fragment.printed text).text source = text := rfl

/-- Remarks are the comments before a node. -/
@[simp] theorem text_remarks (t : Tree) :
    (Fragment.remarks t).text source = commentsBefore source t := rfl

end Written

/-- Puts fragments into a stretch of the source, each in the place of its region. -/
def weaveFragments (cursor stop : Nat) : List (Region × List Fragment) → List Fragment
  | [] => [.copied ⟨cursor, stop⟩]
  | (region, fragments) :: rest =>
    -- What starts before the end of the one before it is left out here too.
    if region.start < cursor then weaveFragments cursor stop rest
    else .copied ⟨cursor, region.start⟩ :: (fragments ++ weaveFragments region.stop stop rest)

/-- Weaving fragments weaves their letters. -/
theorem written_weaveFragments (source : Source) (cursor stop : Nat)
    (pieces : List (Region × List Fragment)) :
    written source (weaveFragments cursor stop pieces) =
      weave source cursor stop (pieces.map fun piece => (piece.1, written source piece.2)) := by
  -- Both walks skip the same pieces, for they look at the regions only.
  induction pieces generalizing cursor with
  | nil => simp [weaveFragments, weave]
  | cons piece rest ih =>
    obtain ⟨region, fragments⟩ := piece
    simp only [weaveFragments, List.map_cons, weave]
    split
    · exact ih cursor
    · simp [ih]

/-- The fragments of a node that was read. -/
def readFragments : Tree → List Fragment
  | .node kind mark fields =>
    let region := mark.range.getD default
    .remarks (.node kind mark fields) ::
      -- Unless flagged, a node is copied whole, and comments below it are not written.
      if mark.modified then
        weaveFragments region.start region.stop
          ((rangedChildren fields).attach.map fun ⟨child, _⟩ => (child.1, readFragments child.2))
      else [.copied region]
  | _ => []
termination_by t => sizeOf t
decreasing_by exact sizeOf_lt_of_mem_rangedChildren ‹_›

/-- The fragments of a node that was read, through those of the nodes read below it. -/
theorem readFragments_node (kind : Option String) (mark : Mark) (fields : List (String × Tree)) :
    readFragments (.node kind mark fields) =
      .remarks (.node kind mark fields) ::
        if mark.modified then
          weaveFragments (mark.range.getD default).start (mark.range.getD default).stop
            ((rangedChildren fields).map fun child => (child.1, readFragments child.2))
        else [.copied (mark.range.getD default)] := by
  -- The proofs of membership that the recursion carries can be forgotten.
  rw [readFragments]
  simp only [List.map_attach_eq_pmap, List.pmap_eq_map]

/-- The letters of a node that was read are those of its fragments. -/
theorem readText_eq (source : Source) (t : Tree) :
    readText source t = written source (readFragments t) := by
  -- The recursion goes to the nodes read below, however deep in the fields they lie.
  match t with
  | .node kind mark fields =>
    have below : ∀ child ∈ rangedChildren fields,
        readText source child.2 = written source (readFragments child.2) :=
      fun child _ => readText_eq source child.2
    rw [readText, readFragments_node]
    simp only [List.map_attach_eq_pmap, List.pmap_eq_map, written_cons, text_remarks]
    split
    · rw [written_weaveFragments, List.map_map]
      congr 2
      exact List.map_congr_left fun child member => by simp [below child member]
    · simp
  | .null => simp [readText, readFragments]
  | .flag _ => simp [readText, readFragments]
  | .number _ => simp [readText, readFragments]
  | .text _ => simp [readText, readFragments]
  | .list _ => simp [readText, readFragments]
termination_by sizeOf t
decreasing_by exact sizeOf_lt_of_mem_rangedChildren ‹_›

/-- Fragments with a comma between each two. -/
def commaFragments : List (List Fragment) → List Fragment
  | [] => []
  | [last] => last
  | first :: rest => first ++ .printed ", " :: commaFragments rest

/-- A comma between fragments is one between their letters. -/
theorem written_commaFragments (source : Source) (parts : List (List Fragment)) :
    written source (commaFragments parts) = Text.commaSeparated (parts.map (written source)) := by
  -- The recursion tells the last part from the others, as joining does.
  fun_induction commaFragments parts with
  | case1 => rfl
  | case2 last => simp [Text.commaSeparated, Text.joined]
  | case3 first rest nonempty ih =>
    obtain ⟨second, more, rfl⟩ := List.exists_cons_of_ne_nil nonempty
    rw [written_append, written_cons, ih]
    simp [Text.commaSeparated, Text.joined]

/-- A name and the name it goes by, which is left out if the letters are the same. -/
def aliasFragments (source : Source) (name other : List Fragment) : List Fragment :=
  if written source name = written source other then name else name ++ .printed " as " :: other

/-- The letters of a name and the name it goes by. -/
theorem written_aliasFragments (source : Source) (name other : List Fragment) :
    written source (aliasFragments source name other) =
      aliasText (written source name) (written source other) := by
  -- Both forms ask whether the two names have the same letters.
  rw [aliasFragments, aliasText]
  split <;> simp

/-- Fragments in braces. -/
def bracedFragments (names : List (List Fragment)) : List Fragment :=
  .printed "\x7b " :: (commaFragments names ++ [.printed " \x7d"])

/-- The letters of fragments in braces. -/
theorem written_bracedFragments (source : Source) (names : List (List Fragment)) :
    written source (bracedFragments names) = braced (names.map (written source)) := by
  simp [bracedFragments, braced, written_commaFragments]

/-- A specifier of an import: its fragments, and whether they go inside the braces. -/
structure Specified where
  named : Bool
  fragments : List Fragment

/-- The clause with the letters of a specifier. -/
def Specified.clause (source : Source) (s : Specified) : Clause :=
  if s.named then .named (written source s.fragments) else .whole (written source s.fragments)

/-- The fragments of an import. -/
def importFragments (specified : List Specified) (origin : List Fragment) : List Fragment :=
  let named := (specified.filter (·.named)).map (·.fragments)
  let all := (specified.filter (!·.named)).map (·.fragments) ++
    (if named.isEmpty then [] else [bracedFragments named])
  -- Without specifiers the module is loaded for its effects, and there is no `from`.
  if all.isEmpty then .printed "import " :: (origin ++ [.printed ";"])
  else .printed "import " :: (commaFragments all ++ .printed " from " :: (origin ++ [.printed ";"]))

/-- The clauses outside the braces are those of the specifiers outside them. -/
theorem filterMap_whole (source : Source) (specified : List Specified) :
    (specified.map (Specified.clause source)).filterMap Clause.whole? =
      ((specified.filter (!·.named)).map (·.fragments)).map (written source) := by
  -- A specifier and its clause stand on the same side of the braces.
  induction specified with
  | nil => rfl
  | cons s rest ih =>
    rw [List.map_cons, List.filterMap_cons, ih]
    cases inside : s.named <;> simp [Specified.clause, Clause.whole?, inside]

/-- The clauses inside the braces are those of the specifiers inside them. -/
theorem filterMap_named (source : Source) (specified : List Specified) :
    (specified.map (Specified.clause source)).filterMap Clause.named? =
      ((specified.filter (·.named)).map (·.fragments)).map (written source) := by
  -- Whether a specifier stands inside the braces goes along with its letters.
  induction specified with
  | nil => rfl
  | cons s rest ih =>
    rw [List.map_cons, List.filterMap_cons, ih]
    cases inside : s.named <;> simp [Specified.clause, Clause.named?, inside]

/-- The letters of an import. -/
theorem written_importFragments (source : Source) (specified : List Specified)
    (origin : List Fragment) :
    written source (importFragments specified origin) =
      importText (specified.map (Specified.clause source)) (written source origin) := by
  simp only [importFragments, importText, filterMap_whole, filterMap_named]
  generalize (specified.filter (·.named)).map (·.fragments) = named
  generalize (specified.filter (!·.named)).map (·.fragments) = whole
  -- Both sides tell by the same two lists which of the forms it is.
  by_cases inside : named = []
  · by_cases outside : whole = []
    · simp [inside, outside]
    · simp [inside, outside, written_commaFragments]
  · simp [inside, written_commaFragments, written_bracedFragments]

/-- The fragments of a node: those of what was read, else those of its printed form. -/
def fragmentsOf (source : Source) (t : Tree) : Except EmitError (List Fragment) :=
  -- What was read is copied; only what was not read needs a printed form.
  if t.range?.isSome then .ok (readFragments t)
  else (Fragment.remarks t :: ·) <$> match _hasKind : t.kind? with
    | some "ImportDeclaration" => do
      let origin ← fragmentsOf source (t.get "source")
      let specified ← (t.get "specifiers").items.attach.mapM fun ⟨specifier, _⟩ => do
        let bound ← fragmentsOf source (specifier.get "local")
        if specifier.isA "ImportDefaultSpecifier" then return Specified.mk false bound
        else if specifier.isA "ImportNamespaceSpecifier" then
          return Specified.mk false (.printed "* as " :: bound)
        else
          let imported ← fragmentsOf source (specifier.get "imported")
          return Specified.mk true (aliasFragments source imported bound)
      return importFragments specified origin
    | some "ExportNamedDeclaration" =>
      if (t.get "declaration").isNull then do
        let names ← (t.get "specifiers").items.attach.mapM fun ⟨specifier, _⟩ => do
          let bound ← fragmentsOf source (specifier.get "local")
          let exported ← fragmentsOf source (specifier.get "exported")
          return aliasFragments source bound exported
        return .printed "export " :: (bracedFragments names ++ [.printed ";"])
      else do
        let declaration ← fragmentsOf source (t.get "declaration")
        return .printed "export " :: declaration
    | some "ExportDefaultDeclaration" => do
      let declaration ← fragmentsOf source (t.get "declaration")
      return .printed "export default " :: (declaration ++ [.printed ";"])
    | some "VariableDeclaration" => do
      let declarators ← (t.get "declarations").items.attach.mapM fun ⟨declarator, _⟩ =>
        fragmentsOf source declarator
      return .printed (plainText (t.get "kind") ++ " ") ::
        (commaFragments declarators ++ [.printed ";"])
    | some "VariableDeclarator" => do
      let target ← fragmentsOf source (t.get "id")
      if (t.get "init").isNull then return target
      else
        let init ← fragmentsOf source (t.get "init")
        return target ++ .printed " = " :: init
    | some "CallExpression" => do
      let arguments ← (t.get "arguments").items.attach.mapM fun ⟨argument, _⟩ =>
        fragmentsOf source argument
      let callee ← fragmentsOf source (t.get "callee")
      return callee ++ .printed "(" :: (commaFragments arguments ++ [.printed ")"])
    | some "MemberExpression" => do
      let object ← fragmentsOf source (t.get "object")
      let property ← fragmentsOf source (t.get "property")
      if (t.get "computed").isSet then
        return object ++ .printed "[" :: (property ++ [.printed "]"])
      else return object ++ .printed "." :: property
    | some "MetaProperty" => do
      let outer ← fragmentsOf source (t.get "meta")
      let property ← fragmentsOf source (t.get "property")
      return outer ++ .printed "." :: property
    | some "Identifier" => .ok [.printed (t.get "name").textD]
    | some "Literal" =>
      .ok [.printed
        (if (t.get "raw").isNull then Text.ascii (t.get "value") else (t.get "raw").textD)]
    | kind => .error (.noPrinter kind)
termination_by sizeOf t
decreasing_by
  all_goals first
    | exact Tree.sizeOf_get_lt_of_kind _hasKind _
    | exact Tree.sizeOf_lt_of_kind_of_mem _hasKind ‹_›
    | exact Nat.lt_of_le_of_lt (Tree.sizeOf_get_le ..) (Tree.sizeOf_lt_of_kind_of_mem _hasKind ‹_›)

/-- Mapping over a list with two functions that agree up to a change of the results gives lists
that agree up to that change. -/
theorem mapM_map_of_agree {α β γ ε : Type} {f : α → Except ε β} {g : α → Except ε γ}
    {items : List α} (change : γ → β) (agree : ∀ item ∈ items, f item = change <$> g item) :
    items.mapM f = List.map change <$> items.mapM g := by
  -- Both stop at the first element that fails, with the same fault.
  induction items with
  | nil => rfl
  | cons item rest ih =>
    have later := ih fun other member => agree other (List.mem_cons_of_mem _ member)
    rw [List.mapM_cons, List.mapM_cons, agree item List.mem_cons_self, later]
    cases g item with
    | error fault => rfl
    | ok first => cases rest.mapM g <;> rfl

/-- Two computations that agree up to a change of the result stay so if what follows does. -/
theorem bind_map_of_agree {α β γ δ ε : Type} {first : Except ε β} {second : Except ε α}
    {change : α → β} {next : β → Except ε δ} {other : α → Except ε γ} {finish : γ → δ}
    (agree : first = change <$> second) (follow : ∀ a, next (change a) = finish <$> other a) :
    (first >>= next) = finish <$> (second >>= other) := by
  -- A fault of the first computation ends both; a result is handed on to what follows.
  subst agree
  cases second with
  | error fault => rfl
  | ok a => exact follow a

/-- Comments before a node are one more fragment. -/
theorem map_remarks {source : Source} {t : Tree} {texts : Except EmitError Text}
    {fragments : Except EmitError (List Fragment)} (agree : texts = written source <$> fragments) :
    (commentsBefore source t ++ ·) <$> texts =
      written source <$> (Fragment.remarks t :: ·) <$> fragments := by
  -- A fault has no letters that comments could stand before.
  subst agree
  cases fragments <;> rfl

/-- What cannot be written has no letters. -/
theorem written_refused (source : Source) (fault : EmitError) :
    written source <$> (Except.error fault : Except EmitError (List Fragment)) = .error fault :=
  rfl

/-- The letters of a node are those of its fragments, and it fails to have any for the same
reason. -/
theorem render_eq (source : Source) (t : Tree) :
    render source t = written source <$> fragmentsOf source t := by
  have smaller : ∀ u : Tree, sizeOf u < sizeOf t →
      render source u = written source <$> fragmentsOf source u :=
    fun u _ => render_eq source u
  rw [render, fragmentsOf]
  by_cases ranged : t.range?.isSome
  · rw [if_pos ranged, if_pos ranged, readText_eq]
    rfl
  · rw [if_neg ranged, if_neg ranged]
    apply map_remarks
    -- The same kind is met on both sides, and what lies below a node is smaller than it.
    generalize known : t.kind? = kind
    split
    -- An import: where it is from, then the specifiers with their names.
    · refine bind_map_of_agree (smaller _ (Tree.sizeOf_get_lt_of_kind known _)) fun origin => ?_
      refine bind_map_of_agree (mapM_map_of_agree (Specified.clause source) fun entry _ => ?_)
        fun specified => congrArg Except.ok (written_importFragments source specified origin).symm
      obtain ⟨specifier, held⟩ := entry
      have below (key : String) := smaller (specifier.get key) (Nat.lt_of_le_of_lt
        (Tree.sizeOf_get_le ..) (Tree.sizeOf_lt_of_kind_of_mem known held))
      refine bind_map_of_agree (below _) fun bound => ?_
      split
      · rfl
      · split
        · exact congrArg Except.ok (by simp [Specified.clause])
        · refine bind_map_of_agree (below _) fun imported => congrArg Except.ok ?_
          simp [Specified.clause, written_aliasFragments]
    · split
      -- An export of names, and behind it one of a declaration.
      · refine bind_map_of_agree (mapM_map_of_agree (written source) fun entry _ => ?_)
          fun names => congrArg Except.ok ?_
        · obtain ⟨specifier, held⟩ := entry
          have below (key : String) := smaller (specifier.get key) (Nat.lt_of_le_of_lt
            (Tree.sizeOf_get_le ..) (Tree.sizeOf_lt_of_kind_of_mem known held))
          refine bind_map_of_agree (below _) fun bound => ?_
          refine bind_map_of_agree (below _) fun exported => congrArg Except.ok ?_
          exact (written_aliasFragments source bound exported).symm
        · simp [written_bracedFragments]
      · refine bind_map_of_agree (smaller _ (Tree.sizeOf_get_lt_of_kind known _)) fun _ => ?_
        exact congrArg Except.ok (by simp)
    · refine bind_map_of_agree (smaller _ (Tree.sizeOf_get_lt_of_kind known _)) fun _ => ?_
      exact congrArg Except.ok (by simp)
    -- A declaration with all its declarators.
    · refine bind_map_of_agree (mapM_map_of_agree (written source) fun entry _ => ?_)
        fun declarators => congrArg Except.ok ?_
      · exact smaller _ (Tree.sizeOf_lt_of_kind_of_mem known entry.2)
      · simp [written_commaFragments]
    -- A declarator, with or without an initializer.
    · refine bind_map_of_agree (smaller _ (Tree.sizeOf_get_lt_of_kind known _)) fun target => ?_
      split
      · rfl
      · refine bind_map_of_agree (smaller _ (Tree.sizeOf_get_lt_of_kind known _)) fun init => ?_
        exact congrArg Except.ok (by simp)
    -- A call: the arguments come first on both sides.
    · refine bind_map_of_agree (mapM_map_of_agree (written source) fun entry _ => ?_)
        fun arguments => ?_
      · exact smaller _ (Tree.sizeOf_lt_of_kind_of_mem known entry.2)
      · refine bind_map_of_agree (smaller _ (Tree.sizeOf_get_lt_of_kind known _)) fun callee => ?_
        exact congrArg Except.ok (by simp [written_commaFragments])
    -- A member, in brackets or behind a dot.
    · refine bind_map_of_agree (smaller _ (Tree.sizeOf_get_lt_of_kind known _)) fun object => ?_
      refine bind_map_of_agree (smaller _ (Tree.sizeOf_get_lt_of_kind known _)) fun property => ?_
      split <;> exact congrArg Except.ok (by simp)
    · refine bind_map_of_agree (smaller _ (Tree.sizeOf_get_lt_of_kind known _)) fun outer => ?_
      refine bind_map_of_agree (smaller _ (Tree.sizeOf_get_lt_of_kind known _)) fun property => ?_
      exact congrArg Except.ok (by simp)
    · exact congrArg Except.ok (by simp)
    · exact congrArg Except.ok (by simp)
    -- Neither side has a form for any other kind.
    · simp only [*, written_refused]
termination_by sizeOf t

/-- A stretch of the source between two statements, on a line of its own if that is due. -/
def gapFragments (source : Source) (due : Bool) (region : Region) : List Fragment :=
  if due && !startsWithBreak (slice source region.start region.stop) then
    [.printed [.char '\n'], .copied region]
  else [.copied region]

/-- The letters of a stretch between two statements. -/
theorem written_gapFragments (source : Source) (due : Bool) (region : Region) :
    written source (gapFragments source due region) =
      afterBreak due (slice source region.start region.stop) := by
  -- A line break is put in under the same condition on both sides.
  rw [gapFragments, afterBreak]
  split <;> simp

/-- A top-level statement by its fragments. -/
structure Placed where
  region : Region
  inserted : Bool
  fragments : List Fragment
deriving Inhabited

/-- The statement with its letters. -/
def Placed.piece (source : Source) (p : Placed) : Piece :=
  { region := p.region, inserted := p.inserted, text := written source p.fragments }

/-- The fragments of a program: those of its statements, with what stands between them. -/
def composeFragments (source : Source) (cursor : Nat) (due : Bool) : List Placed → List Fragment
  | [] => gapFragments source due ⟨cursor, source.size⟩
  | placed :: rest =>
    gapFragments source due ⟨cursor, placed.region.start⟩ ++ (placed.fragments ++
      composeFragments source (max cursor placed.region.stop) placed.inserted rest)

/-- Composing fragments composes their letters. -/
theorem written_composeFragments (source : Source) (cursor : Nat) (due : Bool)
    (placed : List Placed) :
    written source (composeFragments source cursor due placed) =
      compose source cursor due (placed.map (Placed.piece source)) := by
  -- The cursor moves in the same way over pieces and over fragments.
  induction placed generalizing cursor due with
  | nil => simp [composeFragments, compose, written_gapFragments]
  | cons p rest ih =>
    simp [composeFragments, compose, written_gapFragments, ih, Placed.piece]

/-- A top-level statement in its place. -/
def placed (source : Source) (t : Tree) : Except EmitError Placed :=
  match t.region? with
  | none => .error .noRange
  | some region => do
    let fragments ← fragmentsOf source t
    return { region, inserted := t.mark.span.isSome && region.start == region.stop, fragments }

/-- The letters of a top-level statement are those of its fragments. -/
theorem piece_eq (source : Source) (t : Tree) :
    piece source t = Placed.piece source <$> placed source t := by
  -- A statement that has no place has none on either side.
  rw [piece, placed]
  cases t.region? with
  | none => rfl
  | some region => exact bind_map_of_agree (render_eq source t) fun fragments => rfl

/-- The fragments of a program. -/
def programFragments (source : Source) (program : Tree) : Except EmitError (List Fragment) := do
  let all ← (program.get "body").items.mapM (placed source)
  return composeFragments source 0 false all

/-- The letters of a program are those of its fragments. -/
theorem programText_eq (source : Source) (program : Tree) :
    programText source program = written source <$> programFragments source program := by
  -- Both place every statement first, and only then what stands between them.
  rw [programText, programFragments]
  exact bind_map_of_agree (mapM_map_of_agree (Placed.piece source) fun t _ => piece_eq source t)
    fun all => congrArg Except.ok (written_composeFragments source 0 false all).symm

end ModuleLift.Emission
