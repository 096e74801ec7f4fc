import ModuleLift.Proofs.Emission.Layout
import ModuleLift.Proofs.Lift.Outcome
import ModuleLift.Proofs.Loader
import ModuleLift.Proofs.Tree.Bare

/-! Where a lifted program is written: every statement in its own place, with all that stood between
the statements of the source. -/

namespace ModuleLift

open scoped List

namespace Tree

/-- Whether it is known where a node of some kind was read, and all that it declares or passes on
are nodes. -/
def Grounded (t : Tree) : Prop :=
  (t.kind?.isSome → t.range?.isSome) ∧
    ∀ key ∈ ["declarations", "arguments"], ∀ item ∈ (t.get key).items, item.kind?.isSome

instance (t : Tree) : Decidable t.Grounded := by unfold Grounded; infer_instance

/-- Whether a node is grounded is told by the bare tree. -/
theorem grounded_bare (t : Tree) : t.Grounded ↔ t.bare.Grounded := by
  simp [Grounded]

/-- A part of some kind was read. -/
theorem range_of_grounded {t part : Tree} (grounded : ∀ part ∈ t.parts, part.Grounded)
    (inside : part.parts ⊆ t.parts) (kind : part.kind?.isSome) : part.range?.isSome :=
  (grounded part (inside (mem_parts_of_kind kind))).1 kind

end Tree

namespace Lift

open Emission

/-- A value is exported by an assignment to `module.exports`. -/
theorem assigns_of_exportsValue {t value : Tree} (assigned : exportsValue? t = some value) :
    (t.get "expression").isA "AssignmentExpression" ∧
      isModuleExports ((t.get "expression").get "left") ∧
      value = (t.get "expression").get "right" := by
  -- The three conditions are checked together, and all of them hold if there is a value.
  simp only [exportsValue?] at assigned
  split at assigned
  · rename_i assigns
    simp only [Bool.and_eq_true] at assigns
    cases assigned
    exact ⟨assigns.1.1, assigns.2, rfl⟩
  · cases assigned

/-- The value assigned to `module.exports` is a part of the statement. -/
theorem parts_exportsValue {t value : Tree} (assigned : exportsValue? t = some value) :
    value.parts ⊆ t.parts := by
  -- It lies two fields below the statement.
  obtain ⟨_, _, rfl⟩ := assigns_of_exportsValue assigned
  exact fun part member => (Tree.parts_get_sublist t rfl).subset
    ((Tree.parts_get_sublist (t.get "expression") rfl).subset member)

section Replacing

variable {source : Source}

/-- An import in the place of a call of `require` can be printed, and shows no comments but those of
the literal. -/
theorem ImportsFrom.prints {target statement : Tree} (imports : ImportsFrom target statement)
    (read : target.range?.isSome) :
    ∃ shown, Prints source statement shown ∧ shown <+ remarked (readFragments target) := by
  cases imports with
  | written names => exact ⟨_, prints_importFrom names (shows_read read), List.Sublist.refl _⟩
  -- A completed specifier is a new literal, without the comments of the old one.
  | completed names quote path =>
    exact ⟨_, prints_importFrom names (prints_stringLiteral quote path).shows,
      List.nil_sublist _⟩

/-- A declarator that calls a factory can be printed, with the comments of the name and of what the
factory is given. -/
theorem shows_factored {id : Tree} {arguments : List Tree} (factory : Text)
    (bound : id.range?.isSome) (given : ∀ argument ∈ arguments, argument.range?.isSome) :
    Shows source (.variableDeclarator id (.call (.identifier factory) arguments))
      (remarked (readFragments id) ++ arguments.flatMap fun a => remarked (readFragments a)) :=
  (prints_variableDeclarator rfl (shows_read bound)
    (prints_call (prints_identifier factory).shows
      (showsAll_flatMap fun argument held => shows_read (given argument held))).shows).shows

/-- An import from a declarator can be printed. -/
theorem Becomes.prints_statement {d : Tree} {fate : Fate} (becomes : Becomes d fate)
    (grounded : ∀ part ∈ d.parts, part.Grounded) :
    ∀ statement ∈ fate.statement?, ∃ shown, Prints source statement shown := by
  intro statement found
  obtain ⟨loader, called, named, imports⟩ := becomes.importsFrom found
  -- The literal that `require` was called with is a part of the declarator, so it was read.
  have inside : loader.target.parts ⊆ d.parts := fun part member =>
    (Tree.parts_get_sublist d rfl).subset ((Loader.calls_of_classify called).target_subset member)
  have read := Tree.range_of_grounded grounded inside (Loader.kind_of_stringValue named)
  obtain ⟨shown, prints, _⟩ := imports.prints read
  exact ⟨shown, prints⟩

/-- What is left of a declarator can be written. -/
theorem Becomes.shows_declarator {d : Tree} {fate : Fate} (becomes : Becomes d fate)
    (read : d.range?.isSome) (grounded : ∀ part ∈ d.parts, part.Grounded) :
    ∀ left ∈ fate.declarator?, ∃ shown, Shows source left shown := by
  intro left found
  cases becomes with
  | kept => cases found; exact ⟨_, shows_read read⟩
  | dynamic => cases found; exact ⟨_, shows_read read⟩
  | imported => simp [Fate.declarator?] at found
  -- The name and the arguments were read, and the rest is printed around them.
  | @factored target arguments statement factory called named bound =>
    cases found
    have init : (d.get "init").parts ⊆ d.parts := (Tree.parts_get_sublist d rfl).subset
    refine ⟨_, shows_factored factory ?_ fun argument held => ?_⟩
    · exact Tree.range_of_grounded grounded (Tree.parts_get_sublist d rfl).subset
        (Tree.kind_of_isA bound)
    · cases Loader.calls_of_classify called with
      | factory isCall inner named =>
        have call := grounded _ (init (Tree.mem_parts_of_kind (Tree.kind_of_isA isCall)))
        exact Tree.range_of_grounded grounded
          (fun part member => init ((Tree.parts_sublist_of_mem_get rfl held).subset member))
          (call.2 "arguments" (by simp) argument held)

/-- What a declaration becomes can be printed, if something was imported from it. -/
theorem prints_declared {marker : Text} {t : Tree} {fates : List Fate}
    (each : List.Forall₂ Becomes (t.get "declarations").items fates)
    (isDeclaration : t.isA "VariableDeclaration") (grounded : ∀ part ∈ t.parts, part.Grounded) :
    ∀ node ∈ fates.filterMap Fate.statement? ++ remainder marker t fates,
      ∃ shown, Prints source node shown := by
  -- Every node comes from a declarator, all parts of which were read.
  have whole := grounded t (Tree.mem_parts_of_kind (Tree.kind_of_isA isDeclaration))
  have inside {d : Tree} (held : d ∈ (t.get "declarations").items) : d.parts ⊆ t.parts :=
    (Tree.parts_sublist_of_mem_get rfl held).subset
  intro node member
  rcases List.mem_append.mp member with imported | left
  · obtain ⟨fate, known, found⟩ := List.mem_filterMap.mp imported
    obtain ⟨d, held, becomes⟩ := exists_becomes each known
    exact becomes.prints_statement (fun part below => grounded part (inside held below)) node found
  · -- The declarators left are written one by one, and the comment before them changes nothing.
    have each : ∀ d ∈ fates.filterMap Fate.declarator?, ∃ shown, Shows source d shown := by
      intro d' member
      obtain ⟨fate, known, found⟩ := List.mem_filterMap.mp member
      obtain ⟨d, held, becomes⟩ := exists_becomes each known
      refine becomes.shows_declarator ?_ (fun part below => grounded part (inside held below)) d'
        found
      exact Tree.range_of_grounded grounded (inside held) (whole.2 "declarations" (by simp) d held)
    choose! shown shows_ using each
    have prints := prints_variableDeclaration (t.get "kind") (showsAll_flatMap shows_)
    rw [eq_of_mem_remainder left]
    split
    · exact ⟨_, prints.comment marker⟩
    · exact ⟨_, prints⟩

/-- A statement that is replaced becomes nodes that can be printed, anchored to its place. -/
theorem Outcome.replaced_or_kept {marker : Text} {t : Tree} {nodes : List Tree}
    (outcome : Outcome marker t nodes) (grounded : ∀ part ∈ t.parts, part.Grounded) :
    (∃ added, added ≠ [] ∧ nodes = anchorAll t.readRegion added ∧
      ∀ node ∈ added, ∃ shown, Prints source node shown) ∨
    nodes = [t] ∨ nodes = [t.comment marker] := by
  -- One case for each outcome, with the nodes that take the place of the statement.
  have expression : (t.get "expression").parts ⊆ t.parts := (Tree.parts_get_sublist t rfl).subset
  cases outcome with
  | kept => exact .inr (.inl rfl)
  | dynamic => exact .inr (.inr rfl)
  | declared isDeclaration each some =>
    exact .inl ⟨_, by simp [some], assemble_eq some, prints_declared each isDeclaration grounded⟩
  | loaded isExpression called named imports =>
    have read := Tree.range_of_grounded grounded
      (fun part member => expression ((Loader.calls_of_classify called).target_subset member))
      (Loader.kind_of_stringValue named)
    obtain ⟨shown, prints, _⟩ := imports.prints read
    exact .inl ⟨_, by simp, rfl, by simpa using ⟨shown, prints⟩⟩
  -- The list of names comes first, if there are any, then the value.
  | @exported value isExpression other assigned object pairs =>
    have read := Tree.range_of_grounded grounded (parts_exportsValue assigned)
      (Tree.kind_of_isA object)
    refine .inl ⟨_, by simp, rfl, fun node member => ?_⟩
    rcases eq_of_mem_exports member with rfl | rfl
    · exact ⟨_, prints_exportNamed pairs⟩
    · exact ⟨_, prints_exportDefault (shows_read read)⟩

/-- An anchored statement is written in the place it stands for. -/
theorem piece_anchor {t : Tree} {shown : List Tree} (prints : Prints source t shown)
    (region : Region) :
    ∃ text, piece source (t.anchor region) =
      .ok { region, inserted := region.start == region.stop, text } := by
  -- The span is the place, and the form that is printed does not depend on it.
  obtain ⟨fragments, known, _⟩ := (prints.anchor region).shows
  refine ⟨written source fragments, ?_⟩
  rw [piece, Tree.region?_anchor prints.isNode, render_eq, known]
  cases t with
  | node kind mark fields => rfl
  | _ => cases prints.isNode

/-- Statements anchored to a region fill it. -/
theorem fills_anchorAll {region : Region} (nonempty : region.start < region.stop)
    {added : List Tree} (some : added ≠ [])
    (printable : ∀ node ∈ added, ∃ shown, Prints source node shown) :
    ∃ pieces, (anchorAll region added).mapM (piece source) = .ok pieces ∧
      Fills region pieces := by
  -- All but the last are put in where the region starts, as anchoring does it.
  induction added with
  | nil => exact absurd rfl some
  | cons node rest ih =>
    obtain ⟨shown, prints⟩ := printable node List.mem_cons_self
    cases rest with
    | nil =>
      obtain ⟨text, known⟩ := piece_anchor prints region
      refine ⟨_, by rw [anchorAll, List.mapM_cons, known]; rfl, .last rfl ?_⟩
      simp only [beq_eq_false_iff_ne]
      omega
    | cons next more =>
      obtain ⟨text, known⟩ := piece_anchor prints ⟨region.start, region.start⟩
      obtain ⟨pieces, later, fills⟩ := ih (by simp) fun other member =>
        printable other (List.mem_cons_of_mem _ member)
      rw [beq_self_eq_true] at known
      refine ⟨⟨⟨region.start, region.start⟩, true, text⟩ :: pieces, ?_, .cons rfl rfl fills⟩
      change (node.anchor _ :: anchorAll region (next :: more)).mapM (piece source) = _
      rw [List.mapM_cons, known, later]
      rfl

end Replacing

/-- A top-level statement as it was read: it stands for some text, and so do the nodes in it. -/
structure ReadStatement (t : Tree) : Prop where
  read : t.range?.isSome
  spanless : t.mark.span = none
  nonempty : t.readRegion.start < t.readRegion.stop
  grounded : ∀ part ∈ t.parts, part.Grounded
  nested : ∀ part ∈ t.parts, part.Encloses

/-- A statement, what it became, and the pieces that are written for that. -/
structure Block where
  statement : Tree
  nodes : List Tree
  pieces : List Piece

/-- The texts written for a statement. -/
def Block.texts (block : Block) : List Text := block.pieces.map (·.text)

/-- What is written for a statement: in its place, the texts of what it became. That is the
statement itself, with comments put in, or something that was not read from the source. -/
structure Block.Written (source : Source) (block : Block) : Prop where
  placed : block.nodes.mapM (piece source) = .ok block.pieces
  fills : Fills block.statement.readRegion block.pieces
  rendered : block.nodes.mapM (render source) = .ok block.texts
  kept_or_replaced :
    (∃ t text shown, block.nodes = [t] ∧ block.texts = [text] ∧ t.bare = block.statement.bare ∧
      Annotates source block.statement.readRegion shown text ∧
      shown <+~ t.parts.filter Tree.isCommented) ∨
    ∀ node ∈ block.nodes, node.range? = none

section Blocks

variable {source : Source}

/-- A piece has the place of its statement, and the text this is rendered to. -/
theorem piece_eq_ok {t : Tree} {p : Piece} (known : piece source t = .ok p) :
    t.region? = some p.region ∧ render source t = .ok p.text := by
  -- Without a place or without a text there would be a fault.
  rw [piece] at known
  cases stands : t.region? with
  | none =>
    rw [stands] at known
    cases known
  | some region =>
    cases rendered : render source t with
    | error fault =>
      rw [stands, rendered] at known
      cases known
    | ok text =>
      rw [stands, rendered] at known
      cases known
      exact ⟨rfl, rfl⟩

/-- The texts of pieces are what their statements are rendered to. -/
theorem mapM_render {nodes : List Tree} {pieces : List Piece}
    (known : nodes.mapM (piece source) = .ok pieces) :
    nodes.mapM (render source) = .ok (pieces.map (·.text)) := by
  -- Each piece was made of one statement.
  have each := forall₂_of_mapM known
  clear known
  induction each with
  | nil => rfl
  | cons here _ ih =>
    rw [List.mapM_cons, (piece_eq_ok here).2, ih]
    rfl

/-- A statement that is kept is written as its stretch of the source, with comments put in. -/
theorem written_kept {statement t : Tree} (known : ReadStatement statement)
    (same : t.bare = statement.bare) :
    ∃ pieces, Block.Written source ⟨statement, [t], pieces⟩ := by
  -- Comments and flags change neither the place of a statement nor that of its parts.
  have range : t.range? = statement.range? := by
    rw [← Tree.range?_bare, same, Tree.range?_bare]
  have read : t.range?.isSome := by rw [range]; exact known.read
  have region : t.readRegion = statement.readRegion := by
    rw [Tree.readRegion, range, Tree.readRegion]
  have span : t.mark.span = none := by
    have marks := congrArg (fun u : Tree => u.mark.span) same
    simpa [Mark.bare, known.spanless] using marks
  have covers := covers_readFragments t read (by rw [region]; exact Nat.le_of_lt known.nonempty)
    (Tree.forall_parts_of_bare_eq Tree.encloses_bare same known.nested)
  rw [region] at covers
  have placed : [t].mapM (piece source) = .ok [(readPlaced t).piece source] := by
    rw [List.mapM_cons, piece_eq, placed_read source read span]
    rfl
  refine ⟨_, placed, .last region rfl, mapM_render placed, .inl ?_⟩
  exact ⟨t, _, _, rfl, rfl, same, covers.annotates source, remarked_readFragments t⟩

/-- What a statement becomes is written in its place. -/
theorem written_step (s : Surroundings) {t : Tree} (known : ReadStatement t) (p : Progress) :
    ∃ pieces, Block.Written source ⟨t, (step s t p).1, pieces⟩ := by
  -- Commenting comes first and keeps all places, so the outcome decides.
  have same := Tree.bare_annotate s.marker false t
  have outcome := step_outcome s t p
  have grounded := Tree.forall_parts_of_bare_eq Tree.grounded_bare same known.grounded
  have region : (t.annotate s.marker false).1.readRegion = t.readRegion := by
    rw [Tree.readRegion, ← Tree.range?_bare, same, Tree.range?_bare, Tree.readRegion]
  generalize (t.annotate s.marker false).1 = commented at same outcome grounded region
  rcases @Outcome.replaced_or_kept source _ _ _ outcome grounded with
    ⟨added, some, replaced, printable⟩ | kept | marked
  · rw [region] at replaced
    obtain ⟨pieces, placed, fills⟩ := fills_anchorAll known.nonempty some printable
    rw [replaced]
    refine ⟨pieces, placed, fills, mapM_render placed, .inr fun node member => ?_⟩
    obtain ⟨u, held, place, rfl⟩ := mem_anchorAll member
    obtain ⟨shown, prints⟩ := printable u held
    exact (prints.anchor place).1
  · rw [kept]
    exact written_kept known same
  · rw [marked]
    exact written_kept known ((Tree.bare_comment commented s.marker).trans same)

/-- What the statements become is written in their places. -/
theorem exists_blocks (s : Surroundings) {ts : List Tree} (known : ∀ t ∈ ts, ReadStatement t)
    (p : Progress) :
    ∃ blocks : List Block, blocks.map (·.statement) = ts ∧
      blocks.map (·.nodes) = outputs s ts p ∧ ∀ block ∈ blocks, block.Written source := by
  -- One block for each statement, in the order of the statements.
  induction ts generalizing p with
  | nil => exact ⟨[], rfl, rfl, by simp⟩
  | cons t rest ih =>
    obtain ⟨pieces, written⟩ := @written_step source s t (known t List.mem_cons_self) p
    obtain ⟨blocks, statements, nodes, later⟩ :=
      ih (fun u member => known u (List.mem_cons_of_mem _ member)) (step s t p).2.2
    refine ⟨⟨t, (step s t p).1, pieces⟩ :: blocks, ?_, ?_,
      List.forall_mem_cons.mpr ⟨written, later⟩⟩
    · rw [List.map_cons, statements]
    · rw [List.map_cons, nodes, outputs]

/-- What the blocks are made of is placed block by block. -/
theorem mapM_blocks {blocks : List Block} (written : ∀ block ∈ blocks, block.Written source) :
    (blocks.flatMap (·.nodes)).mapM (piece source) = .ok (blocks.flatMap (·.pieces)) := by
  -- Placing the nodes of all blocks is placing those of each block.
  induction blocks with
  | nil => rfl
  | cons block rest ih =>
    rw [List.flatMap_cons, List.mapM_append, (written block List.mem_cons_self).placed,
      ih fun other member => written other (List.mem_cons_of_mem _ member)]
    rfl

/-- The definitions put before a body are imports of helpers and constants made with them. -/
theorem mem_polyfill {names : Polyfill} {t : Tree} (member : t ∈ names.statements) :
    (∃ name bound module, t = Polyfill.helperImport name bound module) ∨
      (∃ name, t = Polyfill.constant name names.modulePath) ∨
      ∃ name,
        t = Polyfill.constant name (.call (.identifier names.parentName) [names.modulePath]) := by
  -- Nothing is needed, or the import of the path helper, then the directory, then the file.
  simp only [Polyfill.statements] at member
  split at member
  · simp at member
  · rcases List.mem_append.mp member with helpers | file
    · rcases List.mem_append.mp helpers with first | parent
      · exact .inl ⟨_, _, _, List.mem_singleton.mp first⟩
      · split at parent
        · rcases List.mem_cons.mp parent with rfl | last
          · exact .inl ⟨_, _, _, rfl⟩
          · exact .inr (.inr ⟨_, List.mem_singleton.mp last⟩)
        · simp at parent
    · split at file
      · exact .inr (.inl ⟨_, List.mem_singleton.mp file⟩)
      · simp at file

/-- The definitions put before a body can be printed. -/
theorem prints_polyfill (names : Polyfill) : ∀ t ∈ names.statements, Prints source t [] := by
  -- Helpers are imported under plain names, and constants call them.
  have call (name : Text) {argument : Tree} (value : Shows source argument []) :
      Shows source (.call (.identifier name) [argument]) [] :=
    (prints_call (prints_identifier name).shows (showsAll_singleton value)).shows
  have constant (name : Text) {init : Tree} (present : init.isNull = false)
      (value : Shows source init []) : Prints source (Polyfill.constant name init) [] :=
    prints_variableDeclaration _ (showsAll_singleton
      (prints_variableDeclarator present (prints_identifier name).shows value).shows)
  have path : Shows source names.modulePath [] := call _ prints_importMetaUrl.shows
  intro t member
  rcases mem_polyfill member with ⟨name, bound, module, rfl⟩ | ⟨name, rfl⟩ | ⟨name, rfl⟩
  · exact prints_importFrom (by simpa using .named name bound)
      (prints_stringLiteral '"' module).shows
  · exact constant name rfl path
  · exact constant name rfl (call _ path)

/-- The first of the nodes in a block starts where the statement did. -/
theorem Block.Written.opens {block : Block} (written : block.Written source) :
    ∃ first rest, block.nodes = first :: rest ∧
      (first.region?.getD default).start = block.statement.readRegion.start := by
  obtain ⟨placed, fills, _, _⟩ := written
  cases split : block.nodes with
  | nil =>
    rw [split] at placed
    exact absurd (Except.ok.inj placed).symm fills.ne_nil
  | cons first rest =>
    refine ⟨first, rest, rfl, ?_⟩
    -- The first piece is that of the first node.
    have each := forall₂_of_mapM placed
    rw [split] at each
    generalize block.pieces = pieces at each fills
    cases each with
    | cons here _ =>
      rw [(piece_eq_ok here).1, Option.getD_some]
      cases fills with
      | last whole _ => exact congrArg Region.start whole
      | cons opens _ _ =>
        have start := congrArg Region.start opens
        exact start

/-- The definitions put before a body are put in where its first statement was. -/
theorem pieces_opening (names : Polyfill) {blocks : List Block}
    (written : ∀ block ∈ blocks, block.Written source)
    (empty : blocks = [] → names.statements = []) :
    ∃ pieces, (opening names (blocks.flatMap (·.nodes))).mapM (piece source) = .ok pieces ∧
      ∀ piece ∈ pieces, ∃ block ∈ blocks.head?,
        piece.region = ⟨block.statement.readRegion.start, block.statement.readRegion.start⟩ ∧
          piece.inserted := by
  -- The definitions are anchored where the first node starts, which is where the first
  -- statement does.
  refine mapM_exists_ok fun t member => ?_
  simp only [opening] at member
  obtain ⟨definition, held, rfl⟩ := List.mem_map.mp member
  cases blocks with
  -- A program without statements needs no definitions.
  | nil => simp [empty rfl] at held
  | cons block rest =>
    obtain ⟨first, more, split, opens⟩ := (written block List.mem_cons_self).opens
    simp only [List.flatMap_cons, split, List.cons_append, opens]
    have prints := @prints_polyfill source names definition held
    obtain ⟨text, known⟩ := piece_anchor prints
      ⟨block.statement.readRegion.start, block.statement.readRegion.start⟩
    exact ⟨_, known, block, rfl, rfl, beq_self_eq_true _⟩

end Blocks

/-- A changed field is looked up as such. -/
theorem get_mapField (t : Tree) (key : String) (change : Tree → Tree) :
    (t.mapField key change).get key = ((t.fields.lookup key).map change).getD .null := by
  -- The change keeps the names, so the look-up stops at the same field.
  cases t with
  | node kind mark fields =>
    rw [Tree.mapField, Tree.get, Tree.fields, Tree.fields]
    congr 1
    induction fields with
    | nil => rfl
    | cons field rest ih =>
      obtain ⟨name, value⟩ := field
      rw [List.map_cons, List.lookup_cons]
      by_cases here : name = key
      · simp [here]
      · have other : (key == name) = false := by simpa using Ne.symm here
        rw [if_neg (by simpa using here), List.lookup_cons, other]
        exact ih
  | _ => rfl

/-- The body of a lifted program; a program without a body stays without one. -/
theorem items_body {t : Tree} {items : List Tree} (empty : (t.get "body").items = [] → items = []) :
    ((t.mapField "body" fun _ => .list items).get "body").items = items := by
  -- A program without a body has no statements, and gets none.
  rw [get_mapField]
  rw [Tree.get] at empty
  cases found : t.fields.lookup "body" with
  | some value => rfl
  | none =>
    rw [found] at empty
    exact (empty rfl).symm

/-- The new body of a program is what the statements became, after the definitions put before
it. -/
theorem items_liftedOf (ledger : Ledger) (s : Surroundings) (program : Tree) :
    let (body, _, p) := steps s (program.get "body").items (Progress.ofLedger ledger)
    ((liftedOf ledger s program).program.get "body").items = opening p.names body ++ body := by
  refine items_body fun empty => ?_
  -- Without statements no name was met that has to be defined.
  have none : (program.get "body").items = [] := by
    cases program <;> exact empty
  rw [none]
  rfl

/-- The new body of a lifted program is what the statements became, after the definitions put before
it, and all reports were made on the way. -/
theorem body_of_liftWith {ledger : Ledger} {s : Surroundings} {program : Tree} {lifted : Lifted}
    (known : liftWith ledger s program = .ok lifted) :
    let (body, _, p) := steps s (program.get "body").items (Progress.ofLedger ledger)
    lifted.diagnostics = p.diagnostics ∧
      (lifted.program.get "body").items = opening p.names body ++ body := by
  -- A lift that ends well gives the result that can be told in advance.
  obtain rfl := eq_liftedOf ledger s known
  exact ⟨rfl, items_liftedOf ledger s program⟩

end Lift

open Emission Lift in
/-- A lifted program is written as its source, with every statement that was rewritten replaced in
its place and definitions put before the first; all that stood around the statements stays. -/
theorem programText_lift {source : Text} {program : Tree} (ledger : Ledger) (s : Surroundings)
    (isProgram : program.isA "Program")
    (laid : LaidOut source.length (program.get "body").items)
    (nonempty : ∀ t ∈ (program.get "body").items, t.readRegion.start < t.readRegion.stop)
    (grounded : ∀ part ∈ program.parts, part.Grounded)
    (nested : ∀ part ∈ program.parts, part.Encloses) :
    let start := Progress.ofLedger ledger
    let names := (steps s (program.get "body").items start).2.2.names
    ∃ (lifted : Lifted) (blocks : List Block) (texts : List Text),
      liftWith ledger s program = .ok lifted ∧
      blocks.map (·.statement) = (program.get "body").items ∧
      blocks.map (·.nodes) = outputs s (program.get "body").items start ∧
      (∀ block ∈ blocks, block.Written source.toArray) ∧
      (lifted.program.get "body").items =
        opening names (blocks.flatMap (·.nodes)) ++ blocks.flatMap (·.nodes) ∧
      (opening names (blocks.flatMap (·.nodes))).mapM (render source.toArray) = .ok texts ∧
      programText source.toArray lifted.program =
        .ok (layout source.toArray texts
          (blocks.map fun block => (block.statement.readRegion, block.texts))) := by
  intro start names
  have known : ∀ t ∈ (program.get "body").items, ReadStatement t := by
    intro t member
    have inside := (Tree.parts_sublist_of_mem_get rfl member).subset
    exact ⟨(laid.read t member).1, (laid.read t member).2, nonempty t member,
      fun part found => grounded part (inside found), fun part found => nested part (inside found)⟩
  obtain ⟨blocks, statements, nodes, written⟩ := @exists_blocks source.toArray s _ known start
  have result := liftWith_of_ranged ledger s isProgram fun t member => (laid.read t member).1
  obtain ⟨_, items⟩ := body_of_liftWith result
  rw [steps_fst, ← nodes, ← List.flatMap_def] at items
  obtain ⟨pieces, placed, opens⟩ := pieces_opening names written fun empty => by
    have none : (program.get "body").items = [] := by rw [← statements, empty]; rfl
    simp only [names, none]
    rfl
  -- The regions of the blocks are those of the statements, which stand in order.
  let filled := blocks.map fun block => (block.statement.readRegion, block.pieces)
  have inOrder : InOrder (filled.map (·.1)) := by
    have regions : filled.map (·.1) = (program.get "body").items.map Tree.readRegion := by
      rw [← statements, List.map_map, List.map_map]
      rfl
    rw [regions]
    exact ⟨List.forall_mem_map.mpr fun t member => Nat.le_of_lt (nonempty t member),
      List.pairwise_map.mpr laid.ordered⟩
  have composed := @compose_layout source.toArray pieces filled
    (List.forall_mem_map.mpr fun block member => (written block member).fills) inOrder
    fun piece member => by
      obtain ⟨block, first, found⟩ := opens piece member
      exact ⟨(block.statement.readRegion, block.pieces), by simp [filled, Option.mem_def.mp first],
        found⟩
  refine ⟨_, blocks, pieces.map (·.text), result, statements, nodes, written, items,
    mapM_render placed, ?_⟩
  rw [programText, items, List.mapM_append, placed, mapM_blocks written]
  rw [List.flatMap_map, List.map_map] at composed
  exact congrArg Except.ok composed

/-- The text `const a = require('a'), b = c;` and, on the next line, `__dirname;`. -/
def declarationSample : Tree :=
  let read (kind : String) (start stop : Nat) (fields : List (String × Tree)) : Tree :=
    .node (some kind) { range := some ⟨start, stop⟩ } fields
  let name (text : Text) (start stop : Nat) : Tree :=
    read "Identifier" start stop [("name", .text text)]
  -- One declarator becomes an import, the other is left, and `__dirname` has to be defined.
  let call := read "CallExpression" 10 22 [("callee", name "require" 10 17), ("arguments",
    .list [read "Literal" 18 21 [("value", .text "a"), ("raw", .text "'a'")]])]
  read "Program" 0 41 [("body", .list [
    read "VariableDeclaration" 0 30 [("declarations", .list [
      read "VariableDeclarator" 6 22 [("id", name "a" 6 7), ("init", call)],
      read "VariableDeclarator" 24 29 [("id", name "b" 24 25), ("init", name "c" 28 29)]]),
      ("kind", .text "const")],
    read "ExpressionStatement" 31 41 [("expression", name "__dirname" 31 40)]])]

open Emission Lift in
/-- A declaration that becomes two statements, and a definition put before it. -/
theorem programText_lift_declaration :
    let source : Text := "const a = require('a'), b = c;\n__dirname;"
    let body := (declarationSample.get "body").items
    LaidOut source.length body ∧ (∀ t ∈ body, t.readRegion.start < t.readRegion.stop) ∧
      (∀ part ∈ declarationSample.parts, part.Grounded) ∧
      (∀ part ∈ declarationSample.parts, part.Encloses) ∧
      ∃ (lifted : Lifted) (blocks : List Block) (texts : List Text),
        liftWith {} { isFile := fun _ => false } declarationSample = .ok lifted ∧
        blocks.map (·.statement) = body ∧
        programText source.toArray lifted.program =
          .ok (layout source.toArray texts
            (blocks.map fun block => (block.statement.readRegion, block.texts))) := by
  -- That the sample is laid out as it should be is decided.
  have laid : LaidOut 41 (declarationSample.get "body").items :=
    ⟨by decide, by decide, by decide⟩
  have nonempty : ∀ t ∈ (declarationSample.get "body").items,
      t.readRegion.start < t.readRegion.stop := by decide
  have grounded : ∀ part ∈ declarationSample.parts, part.Grounded := by decide
  have nested : ∀ part ∈ declarationSample.parts, part.Encloses := by decide
  obtain ⟨lifted, blocks, texts, result, statements, _, _, _, _, written⟩ :=
    @programText_lift "const a = require('a'), b = c;\n__dirname;" declarationSample {}
      { isFile := fun _ => false } (by decide) laid nonempty grounded nested
  exact ⟨laid, nonempty, grounded, nested, lifted, blocks, texts, result, statements, written⟩

end ModuleLift
