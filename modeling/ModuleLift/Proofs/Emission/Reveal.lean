import ModuleLift.Proofs.Emission.Printed
import ModuleLift.Proofs.Tree.Shape

/-! Which comments are written: all but those in the values of properties written without their
keys. -/

namespace ModuleLift.Emission

open ModuleLift.Tree

open scoped List

/-- Pieces that show comments and do not overlap are all put in. -/
theorem remarked_weaveFragments_eq {cursor stop : Nat} {pieces : List (Region × List Fragment)}
    (after : ∀ piece ∈ pieces, cursor ≤ piece.1.start ∨ remarked piece.2 = [])
    (spaced : pieces.Pairwise fun first second =>
      first.1.stop ≤ second.1.start ∨ remarked second.2 = []) :
    remarked (weaveFragments cursor stop pieces) =
      pieces.flatMap fun piece => remarked piece.2 := by
  -- Only a piece that starts before the cursor is skipped, and such a piece shows nothing.
  induction pieces generalizing cursor with
  | nil => simp [weaveFragments]
  | cons piece rest ih =>
    obtain ⟨region, fragments⟩ := piece
    rw [List.pairwise_cons] at spaced
    rw [weaveFragments, List.flatMap_cons]
    split
    · -- Only a piece that shows nothing is left out.
      rename_i early
      have nothing := (after (region, fragments) List.mem_cons_self).resolve_left
        (Nat.not_le.mpr early)
      rw [nothing, List.nil_append]
      exact ih (fun other member => after other (List.mem_cons_of_mem _ member)) spaced.2
    · rw [remarked_copied, remarked_append, ih spaced.1 spaced.2]

/-- Of the comments there are some are shown, and all of them if and only if something holds. -/
structure Accounts (shown marked : List Tree) (complete : Prop) : Prop where
  shown_subperm : shown <+~ marked
  length_eq_iff : shown.length = marked.length ↔ complete

namespace Accounts

/-- All comments are shown. -/
theorem refl (marked : List Tree) : Accounts marked marked True :=
  ⟨List.Subperm.refl _, by simp⟩

/-- Nothing is shown, and there may be nothing to show. -/
theorem nil {marked : List Tree} {complete : Prop} (empty : marked = [] ↔ complete) :
    Accounts [] marked complete :=
  ⟨List.nil_subperm, by rw [← empty, List.length_nil, eq_comm, List.length_eq_zero_iff]⟩

/-- What holds can be said in other words. -/
theorem congr {shown marked : List Tree} {complete other : Prop}
    (accounts : Accounts shown marked complete) (same : complete ↔ other) :
    Accounts shown marked other :=
  ⟨accounts.shown_subperm, accounts.length_eq_iff.trans same⟩

/-- The order of the comments does not matter. -/
theorem reorder {shown marked other : List Tree} {complete : Prop}
    (accounts : Accounts shown marked complete) (same : marked ~ other) :
    Accounts shown other complete :=
  ⟨accounts.shown_subperm.trans same.subperm, by rw [← same.length_eq, accounts.length_eq_iff]⟩

/-- Comments in two places are all shown if those in both are. -/
theorem append {first second here there : List Tree} {one other : Prop}
    (left : Accounts first here one) (right : Accounts second there other) :
    Accounts (first ++ second) (here ++ there) (one ∧ other) := by
  refine ⟨left.shown_subperm.append right.shown_subperm, ?_⟩
  -- Neither place shows more than there is, so a total that fits fits in both.
  have bounded := left.shown_subperm.length_le
  have limited := right.shown_subperm.length_le
  rw [List.length_append, List.length_append, ← left.length_eq_iff, ← right.length_eq_iff]
  omega

/-- Comments in several places are all shown if those in each are. -/
theorem flatMap {α : Type} {items : List α} {shown marked : α → List Tree} {complete : α → Prop}
    (each : ∀ item ∈ items, Accounts (shown item) (marked item) (complete item)) :
    Accounts (items.flatMap shown) (items.flatMap marked) (∀ item ∈ items, complete item) := by
  -- Put the places together one by one.
  induction items with
  | nil => exact (refl []).congr (by simp)
  | cons item rest ih =>
    rw [List.flatMap_cons, List.flatMap_cons]
    exact ((each item List.mem_cons_self).append
      (ih fun other member => each other (List.mem_cons_of_mem _ member))).congr
      List.forall_mem_cons.symm

/-- All comments are shown if and only if what is shown are the comments, in some order. -/
theorem perm_iff {shown marked : List Tree} {complete : Prop}
    (accounts : Accounts shown marked complete) : shown ~ marked ↔ complete := by
  -- A list that fits into another and is as long as it is a reordering of it.
  rw [← accounts.length_eq_iff]
  exact ⟨List.Perm.length_eq, fun same =>
    accounts.shown_subperm.perm_of_length_le (Nat.le_of_eq same.symm)⟩

end Accounts

/-- A node read below one in a legible tree has a kind and is legible itself. -/
theorem legible_of_mem_rangedIn {t : Tree} (legible : t.Legible) (kind : t.kind?.isSome)
    {child : Region × Tree} (held : child ∈ t.fields.flatMap rangedIn) :
    child.2.kind?.isSome ∧ child.2.Legible := by
  -- A child is an element of what some field holds, and the shape tells what that can be.
  obtain ⟨field, inField, inside⟩ := List.mem_flatMap.mp held
  cases entered : isNoteKey field.1 with
  | true => simp [rangedIn, entered] at inside
  | false =>
    have range := range_of_mem_rangedIn inside
    rw [rangedIn_elements entered] at inside
    obtain ⟨item, member, found⟩ := List.mem_filterMap.mp inside
    have same := (mem_ranged found).1
    subst same
    have within : child.2.parts ⊆ t.parts := fun part below =>
      parts_subset_of_field inField entered (by
        rw [parts_elements]
        exact List.mem_flatMap.mpr ⟨child.2, member, below⟩)
    refine ⟨?_, legible.inside within⟩
    -- What was read and has no kind would be a plain value, and those were not read.
    rcases (legible.self kind).direct field inField entered child.2 member with isNode | plain
    · exact isNode
    · rw [range_of_isPlain plain] at range
      cases range

/-- A name has no comments in it. -/
theorem marked_identifier {t : Tree} (legible : t.Legible) (name : t.isIdentifier) :
    t.marked = [] :=
  marked_of_isA legible name rfl (by decide)

/-- A value without nodes holds none that was read. -/
theorem rangedIn_plain {field : String × Tree} (blank : isNoteKey field.1 ∨ field.2.isPlain) :
    rangedIn field = [] := by
  -- Notes are not looked into, and a plain value has no place in the text.
  cases entered : isNoteKey field.1 with
  | true => simp [rangedIn, entered]
  | false =>
    have plain := blank.resolve_left (by simp [entered])
    rw [rangedIn_elements entered, List.filterMap_eq_nil_iff]
    intro item member
    rw [ranged?, range_of_isPlain (isPlain_element plain member)]
    rfl

/-- A field that holds a node that was read holds only that. -/
theorem rangedIn_node {key : String} {value : Tree} (entered : isNoteKey key = false)
    (read : value.range?.isSome) : rangedIn (key, value) = [(value.readRegion, value)] := by
  -- Only a list could hold several, and a list has no range.
  obtain ⟨region, range⟩ := Option.isSome_iff_exists.mp read
  rw [rangedIn_elements entered, readRegion, range]
  cases value with
  | list items => cases range
  | _ => simp [elements, ranged?, range]

/-- The nodes read below a property written without its key are its key and its value. -/
theorem rangedChildren_shorthand {kind : Option String} {mark : Mark}
    {fields : List (String × Tree)} (legible : (node kind mark fields).Legible)
    (shorthand : (node kind mark fields).isShorthand) :
    let key := (node kind mark fields).get "key"
    let value := (node kind mark fields).get "value"
    rangedChildren fields = [(key.readRegion, key), (value.readRegion, value)] := by
  -- No other fields hold nodes, and these two hold one each.
  intro key value
  have property : (node kind mark fields).isA "Property" := (Bool.and_eq_true_iff.mp shorthand).1
  have shaped := legible.self (kind_of_isA property)
  obtain ⟨name, isNode, _, starts⟩ := shaped.shared shorthand
  have held : heldIn? (node kind mark fields).kind? = some ["key", "value"] := by
    rw [beq_iff_eq.mp property]
    rfl
  have both := @flatMap_fields _ _ _ shaped held rangedIn fun _ _ => rangedIn_plain
  have first : rangedIn ("key", key) = [(key.readRegion, key)] :=
    rangedIn_node rfl ((legible.get rfl).self (kind_of_isA name)).read
  have second : rangedIn ("value", value) = [(value.readRegion, value)] :=
    rangedIn_node rfl ((legible.get rfl).self isNode).read
  rw [List.flatMap_cons, List.flatMap_cons, List.flatMap_nil, first, second] at both
  rw [rangedChildren]
  -- Of two nodes that start at one place the one in the first field comes first.
  exact both ▸ List.mergeSort_of_pairwise (by simp [key, value, starts])

/-- In a property written without its key the name is put in, and its value is left out. -/
theorem remarked_shorthand {kind : Option String} {mark : Mark} {fields : List (String × Tree)}
    (legible : (node kind mark fields).Legible) (shorthand : (node kind mark fields).isShorthand) :
    remarked (readFragments (node kind mark fields)) = [] := by
  -- The name shows nothing itself, and the value is skipped behind it.
  have property : (node kind mark fields).isA "Property" := (Bool.and_eq_true_iff.mp shorthand).1
  obtain ⟨name, _, nonempty, starts⟩ := (legible.self (kind_of_isA property)).shared shorthand
  have uncommented := not_isCommented legible property (by decide)
  have key : ((node kind mark fields).get "key").Legible := legible.get rfl
  have quiet : remarked (readFragments ((node kind mark fields).get "key")) = [] :=
    List.subperm_nil.mp (marked_identifier key name ▸ remarked_readFragments _)
  rw [readFragments_node, remarked_remarks, rangedChildren_shorthand legible shorthand]
  simp only [List.filter_cons, uncommented, List.filter_nil, Bool.false_eq_true, if_false]
  cases mark.modified with
  | false => rfl
  | true =>
    -- If the name is put in, the cursor stands after it, and the value starts before that.
    simp only [if_true, List.map_cons, List.map_nil, weaveFragments, starts, nonempty]
    split
    · rfl
    · simp [quiet]

/-- The nodes below one whose flag is not set show no comments. -/
theorem marked_unflagged {kind : Option String} {mark : Mark} {fields : List (String × Tree)}
    (legible : (node kind mark fields).Legible) (isNode : kind.isSome)
    (unflagged : mark.modified = false) :
    ∀ child ∈ fields.flatMap rangedIn, child.2.marked = [] := by
  -- Without the flag there are no comments below, and each child lies below.
  have below := (legible.flagged _ (mem_parts_self rfl)).below unflagged
  have children := marked_children legible isNode
  rw [marked_node, List.append_right_inj] at children
  rw [Tree.fields] at children below
  rw [below] at children
  exact List.flatMap_eq_nil_iff.mp children.symm

/-- A node that is no such property shows its own comments and those of the nodes below it. -/
theorem remarked_other {kind : Option String} {mark : Mark} {fields : List (String × Tree)}
    (legible : (node kind mark fields).Legible) (isNode : kind.isSome)
    (other : (node kind mark fields).isShorthand = false) :
    remarked (readFragments (node kind mark fields)) =
      [node kind mark fields].filter isCommented ++
        (rangedChildren fields).flatMap fun child => remarked (readFragments child.2) := by
  -- With the flag the children are put in; without it there is nothing below to show.
  have shaped := legible.self isNode
  have held {child : Region × Tree} (member : child ∈ rangedChildren fields) :
      child ∈ fields.flatMap rangedIn := (rangedChildren_perm fields).mem_iff.mp member
  have quiet {t : Tree} (none : t.marked = []) : remarked (readFragments t) = [] :=
    List.subperm_nil.mp (none ▸ remarked_readFragments t)
  rw [readFragments_node, remarked_remarks]
  congr 1
  cases flag : mark.modified with
  | true =>
    rw [if_pos rfl, remarked_weaveFragments_eq, List.flatMap_map]
    · intro piece member
      obtain ⟨child, found, rfl⟩ := List.mem_map.mp member
      exact .inl (shaped.encloses shaped.read child (held found)).1
    · rw [List.pairwise_map]
      refine (shaped.spaced_sorted other).imp_of_mem fun {first second} _ found apart => ?_
      -- A name that overlaps is left out, but has nothing to show.
      refine apart.imp_right fun name => quiet (marked_identifier ?_ name)
      exact (legible_of_mem_rangedIn legible isNode (held found)).2
  | false =>
    rw [if_neg Bool.false_ne_true, remarked_copied, remarked_nil, eq_comm,
      List.flatMap_eq_nil_iff]
    exact fun child found => quiet (marked_unflagged legible isNode flag child (held found))

/-- The comments in a tree that was read are all written if and only if none is concealed. -/
theorem accounts_readFragments (t : Tree) (legible : t.Legible) (isNode : t.kind?.isSome) :
    Accounts (remarked (readFragments t)) t.marked t.Revealed := by
  -- The recursion follows the nodes read below, as writing does.
  match t with
  | .node kind mark fields =>
    have below : ∀ child ∈ rangedChildren fields,
        Accounts (remarked (readFragments child.2)) child.2.marked child.2.Revealed := by
      intro child member
      obtain ⟨inner, known⟩ := legible_of_mem_rangedIn legible isNode
        ((rangedChildren_perm fields).mem_iff.mp member)
      exact accounts_readFragments child.2 known inner
    cases shorthand : (node kind mark fields).isShorthand with
    | true =>
      -- Nothing is shown, so there has to be nothing to show.
      have property := (Bool.and_eq_true_iff.mp shorthand).1
      obtain ⟨name, _⟩ := (legible.self (kind_of_isA property)).shared shorthand
      have key : ((node kind mark fields).get "key").Legible := legible.get rfl
      have marks := marked_of_isA legible property rfl (by decide)
      simp only [List.flatMap_cons, List.flatMap_nil, marked_identifier key name] at marks
      rw [remarked_shorthand legible shorthand]
      refine .nil ⟨revealed_of_unmarked, fun revealed => ?_⟩
      rw [marks, revealed _ (mem_parts_self rfl) shorthand]
      rfl
    | false =>
      -- The children are put in where they stand, which is a reordering of the fields.
      have order := rangedChildren_perm fields
      have children := order.flatMap_right fun child => child.2.marked
      have accounts := (Accounts.refl ([node kind mark fields].filter isCommented)).append
        (Accounts.flatMap below)
      rw [remarked_other legible isNode shorthand, marked_children legible isNode,
        revealed_children legible isNode]
      refine (accounts.reorder (children.append_left _)).congr ?_
      simp [shorthand, order.mem_iff, Tree.fields]
termination_by sizeOf t
decreasing_by exact sizeOf_lt_of_mem_rangedChildren ‹_›

/-- A node can be written, and the comments in it are all written with it if and only if none is
concealed. -/
def Reveals (source : Source) (t : Tree) : Prop :=
  ∃ shown, Shows source t shown ∧ Accounts shown t.marked t.Revealed

/-- Several nodes can be written, with their comments unless some are concealed. -/
def RevealsAll (source : Source) (items : List Tree) : Prop :=
  ∃ shown, ShowsAll source items shown ∧
    Accounts shown (items.flatMap marked) (∀ t ∈ items, t.Revealed)

/-- A node that was put in can be printed, with the comments of what it is made of unless some are
concealed. -/
def Discloses (source : Source) (t : Tree) : Prop :=
  ∃ shown, Prints source t shown ∧ Accounts shown (t.fields.flatMap fieldMarked) t.Revealed

section Revealing

variable {source : Source}

/-- A node that was read. -/
theorem reveals_read {t : Tree} (legible : t.Legible) (isNode : t.kind?.isSome) :
    Reveals source t :=
  ⟨_, shows_read (legible.self isNode).read, accounts_readFragments t legible isNode⟩

/-- What can be written one by one can be written. -/
theorem revealsAll_of_forall {items : List Tree} (each : ∀ t ∈ items, Reveals source t) :
    RevealsAll source items := by
  -- One account is chosen for each item, and they are joined.
  choose! shown writes accounts using each
  exact ⟨_, showsAll_flatMap writes, .flatMap accounts⟩

/-- What a node is made of stays the same under another mark. -/
theorem fields_mapMark (t : Tree) (change : Mark → Mark) :
    (t.mapMark change).fields = t.fields := by
  cases t <;> rfl

/-- Whether a node conceals comments does not depend on its own mark. -/
theorem revealed_mapMark (t : Tree) (change : Mark → Mark) :
    (t.mapMark change).Revealed ↔ t.Revealed := by
  -- Whether a property is written without its key is told by its kind and its fields.
  cases t with
  | node kind mark fields =>
    simp only [mapMark, Revealed, parts_node, List.forall_mem_cons]
    rfl
  | _ => rfl

/-- A printed node shows its own comments first. -/
theorem Discloses.reveals {t : Tree} (discloses : Discloses source t) : Reveals source t := by
  obtain ⟨shown, prints, accounts⟩ := discloses
  -- The comments before the node itself are always written, so the rest decides.
  refine ⟨_, prints.shows, ?_⟩
  have isNode := prints.isNode
  cases t with
  | node kind mark fields =>
    rw [marked_node]
    exact ((Accounts.refl _).append accounts).congr (by rw [true_and])
  | _ => cases isNode

/-- A statement that stands for a region. -/
theorem Discloses.anchor {t : Tree} (discloses : Discloses source t) (region : Region) :
    Discloses source (t.anchor region) := by
  -- A span changes neither the fields nor what is concealed in them.
  obtain ⟨shown, prints, accounts⟩ := discloses
  refine ⟨shown, prints.anchor region, ?_⟩
  rw [Tree.anchor, fields_mapMark]
  exact accounts.congr (revealed_mapMark t _).symm

/-- A node with a comment before it. -/
theorem Discloses.comment {t : Tree} (discloses : Discloses source t) (text : Text) :
    Discloses source (t.comment text) := by
  -- A comment before the node is not one of its fields.
  obtain ⟨shown, prints, accounts⟩ := discloses
  refine ⟨shown, prints.comment text, ?_⟩
  rw [Tree.comment, fields_mapMark]
  exact accounts.congr (revealed_mapMark t _).symm

/-- A node without comments. -/
theorem discloses_unmarked {t : Tree} (prints : Prints source t []) (none : t.marked = []) :
    Discloses source t := by
  -- A node without comments has none in its fields either.
  refine ⟨[], prints, .nil (iff_of_true ?_ (revealed_of_unmarked none))⟩
  cases t with
  | node kind mark fields => exact (List.append_eq_nil_iff.mp (marked_node .. ▸ none)).2
  | _ => rfl

/-- A node that was put in has the comments of what it is made of. -/
@[simp] theorem marked_synthetic (kind : String) (fields : List (String × Tree)) :
    (synthetic kind fields).marked = fields.flatMap fieldMarked :=
  marked_node ..

/-- A node that was put in conceals no comment if and only if what it is made of does not. -/
theorem revealed_synthetic {kind : String} (fields : List (String × Tree))
    (other : kind ≠ "Property") :
    (synthetic kind fields).Revealed ↔
      ∀ field ∈ fields, isNoteKey field.1 = false → field.2.Revealed := by
  -- The node is no property, so only what it is made of can conceal anything.
  have own : (synthetic kind fields).isShorthand = false := by
    simp [isShorthand, isA, synthetic, kind?, other]
  constructor
  · intro all field held entered part member
    exact all part ((parts_sublist_of_field held entered).subset member)
  · intro below part member shorthand
    rw [synthetic, parts_node] at member
    rcases List.mem_cons.mp member with rfl | inside
    · exact absurd shorthand (by rw [synthetic] at own; simp [own])
    · obtain ⟨field, held, found⟩ := List.mem_flatMap.mp inside
      rw [fieldParts] at found
      split at found
      · simp at found
      · rename_i entered
        exact below field held (by simpa using entered) part found shorthand

/-- A default export has the comments of its value. -/
theorem marked_exportDefault (value : Tree) : (exportDefault value).marked = value.marked := by
  simp [exportDefault, fieldMarked, isNoteKey]

/-- A default export conceals no comment if and only if its value does not. -/
theorem revealed_exportDefault (value : Tree) :
    (exportDefault value).Revealed ↔ value.Revealed := by
  -- The value is its only field.
  rw [exportDefault, revealed_synthetic _ (by decide)]
  simp [isNoteKey]

/-- A default export. -/
theorem discloses_exportDefault {value : Tree} (inner : Reveals source value) :
    Discloses source (.exportDefault value) := by
  -- What is marked below the export is marked in its value.
  obtain ⟨shown, writes, accounts⟩ := inner
  refine ⟨shown, prints_exportDefault writes, ?_⟩
  have below : (exportDefault value).fields.flatMap fieldMarked = value.marked :=
    (marked_synthetic ..).symm.trans (marked_exportDefault value)
  rw [below]
  exact accounts.congr (revealed_exportDefault value).symm

/-- An export of names. -/
theorem discloses_exportNamed (pairs : List (Text × Text)) :
    (exportNamed pairs).marked = [] ∧ Discloses source (.exportNamed pairs) := by
  -- All names are made anew, and such names have no comments.
  have each : pairs.flatMap (fun _ => ([] : List Tree)) = [] := by simp
  have none : (exportNamed pairs).marked = [] := by
    simp [exportNamed, identifier, fieldMarked, isNoteKey, List.flatMap_map, each,
      -List.flatMap_eq_nil_iff]
  exact ⟨none, discloses_unmarked (prints_exportNamed pairs) none⟩

/-- A declaration has the comments of its declarators. -/
theorem marked_variableDeclaration {kind : Tree} (plain : kind.marked = [])
    (declarators : List Tree) :
    (variableDeclaration kind declarators).marked = declarators.flatMap marked := by
  simp [variableDeclaration, fieldMarked, isNoteKey, plain]

/-- A declaration conceals no comment if and only if its declarators do not. -/
theorem revealed_variableDeclaration {kind : Tree} (plain : kind.marked = [])
    (declarators : List Tree) :
    (variableDeclaration kind declarators).Revealed ↔ ∀ d ∈ declarators, d.Revealed := by
  -- Nothing is marked in the word that the declaration starts with.
  rw [variableDeclaration, revealed_synthetic _ (by decide)]
  simp [isNoteKey, revealed_list, revealed_of_unmarked plain]

/-- A declaration. -/
theorem discloses_variableDeclaration {kind : Tree} (plain : kind.marked = [])
    {declarators : List Tree} (inner : RevealsAll source declarators) :
    Discloses source (.variableDeclaration kind declarators) := by
  -- What is marked below the declaration is marked in its declarators.
  obtain ⟨shown, writes, accounts⟩ := inner
  refine ⟨shown, prints_variableDeclaration kind writes, ?_⟩
  have below : (variableDeclaration kind declarators).fields.flatMap fieldMarked =
      declarators.flatMap marked :=
    (marked_synthetic ..).symm.trans (marked_variableDeclaration plain declarators)
  rw [below]
  exact accounts.congr (revealed_variableDeclaration plain declarators).symm

/-- A declared name with its initializer. -/
theorem discloses_variableDeclarator {id init : Tree} (present : init.isNull = false)
    (target : Reveals source id) (value : Reveals source init) :
    Discloses source (.variableDeclarator id init) := by
  -- The target is written before the initializer, and so are its comments.
  obtain ⟨first, left, known⟩ := target
  obtain ⟨rest, right, found⟩ := value
  refine ⟨first ++ rest, prints_variableDeclarator present left right, ?_⟩
  have below : (variableDeclarator id init).fields.flatMap fieldMarked = id.marked ++ init.marked :=
    congrArg (id.marked ++ ·) (List.append_nil init.marked)
  rw [below, variableDeclarator, revealed_synthetic _ (by decide)]
  exact (known.append found).congr (by simp [isNoteKey])

/-- A call. -/
theorem discloses_call {callee : Tree} {arguments : List Tree} (target : Reveals source callee)
    (given : RevealsAll source arguments) : Discloses source (.call callee arguments) := by
  obtain ⟨first, left, known⟩ := target
  obtain ⟨rest, right, found⟩ := given
  refine ⟨first ++ rest, prints_call left right, ?_⟩
  -- The arguments are printed behind what is called, which is the order of the fields too.
  have below : (call callee arguments).fields.flatMap fieldMarked =
      callee.marked ++ arguments.flatMap marked := by
    simp [call, synthetic, Tree.fields, fieldMarked, isNoteKey]
  rw [below, call, revealed_synthetic _ (by decide)]
  exact (known.append found).congr (by simp [isNoteKey, revealed_list])

/-- A top-level statement in its place is written with its comments. -/
theorem Reveals.placed {t : Tree} (reveals : Reveals source t) (stands : t.region?.isSome) :
    ∃ p, Emission.placed source t = .ok p ∧
      Accounts (remarked p.fragments) t.marked t.Revealed := by
  -- A place is all that a piece has beyond the fragments of its statement.
  obtain ⟨shown, ⟨fragments, known, rfl⟩, accounts⟩ := reveals
  obtain ⟨region, found⟩ := Option.isSome_iff_exists.mp stands
  exact ⟨_, by rw [Emission.placed, found, known]; rfl, accounts⟩

/-- A program is written with the comments of its statements, all of them if and only if none is
concealed. -/
theorem accounts_programFragments {program : Tree}
    (each : ∀ t ∈ (program.get "body").items, Reveals source t ∧ t.region?.isSome) :
    ∃ fragments, programFragments source program = .ok fragments ∧
      Accounts (remarked fragments) ((program.get "body").items.flatMap marked)
        (∀ t ∈ (program.get "body").items, t.Revealed) := by
  -- Where a statement is placed does not matter for what it shows.
  have placed := fun t member => (each t member).1.placed (each t member).2
  choose! all found accounts using placed
  refine ⟨_, by rw [programFragments, mapM_eq_ok found]; rfl, ?_⟩
  rw [remarked_composeFragments, List.flatMap_map]
  exact .flatMap accounts

end Revealing

end ModuleLift.Emission
