import Mathlib.Data.List.Flatten
import Mathlib.Data.List.Perm.Subperm
import ModuleLift.Proofs.Emission.Fragment
import ModuleLift.Proofs.Tree.Parts

/-! A program that was read is written as its source, with comments put in where their nodes
start. -/

namespace ModuleLift

open scoped List

/-- Whether a region lies in another one, and its ends are in order. -/
def Region.Within (inner outer : Region) : Prop :=
  outer.start ≤ inner.start ∧ inner.start ≤ inner.stop ∧ inner.stop ≤ outer.stop

instance (inner outer : Region) : Decidable (inner.Within outer) := by
  unfold Region.Within; infer_instance

namespace Tree

/-- The stretch a node was read from. -/
def readRegion (t : Tree) : Region := t.range?.getD default

/-- Whether there are comments to write before a node. -/
def isCommented (t : Tree) : Bool := !t.mark.comments.isEmpty

/-- Whether the nodes read directly below a node lie in its own stretch. They may overlap. -/
def Encloses (t : Tree) : Prop :=
  t.range?.isSome → ∀ child ∈ t.fields.flatMap Emission.rangedIn, child.1.Within t.readRegion

instance (t : Tree) : Decidable t.Encloses := by unfold Encloses; infer_instance

end Tree

namespace Emission

/-- Two stretches of the source that meet make one. -/
theorem slice_append_slice (source : Source) {start middle stop : Nat} (first : start ≤ middle)
    (second : middle ≤ stop) :
    slice source start middle ++ slice source middle stop = slice source start stop := by
  -- The second stretch is taken from where the first ends.
  rw [slice, slice, slice, ← Array.toList_append, Array.extract_append_extract,
    Nat.min_eq_left first, Nat.max_eq_right second]

/-- An empty stretch has no letters. -/
theorem slice_self (source : Source) (place : Nat) : slice source place place = [] := by
  simp [slice_eq]

/-- The stretch from end to end is the whole source. -/
theorem slice_all (source : Source) : slice source 0 source.size = source.toList := by
  simp [slice]

/-- A stretch of the source with texts put in at some places. -/
def inserted (source : Source) (cursor stop : Nat) : List (Nat × Text) → Text
  | [] => slice source cursor stop
  | (place, text) :: rest =>
    slice source cursor place ++ text ++ inserted source place stop rest

/-- What is put in before a node, and where. -/
def insertion (source : Source) (t : Tree) : Nat × Text :=
  (t.readRegion.start, commentsBefore source t)

/-- A text is a stretch of the source with the comments before some nodes put in, in the order of
the text and each where its node starts. -/
structure Annotates (source : Source) (region : Region) (shown : List Tree) (text : Text) :
    Prop where
  text_eq : text = inserted source region.start region.stop (shown.map (insertion source))
  ordered : shown.Pairwise fun first second => first.readRegion.start ≤ second.readRegion.start
  inside : ∀ t ∈ shown, region.start ≤ t.readRegion.start ∧ t.readRegion.start ≤ region.stop

/-- Without what was put in, the stretch of the source is left. -/
theorem inserted_blank (source : Source) {cursor stop : Nat} {places : List Nat}
    (bounded : cursor ≤ stop) (ordered : places.Pairwise (· ≤ ·))
    (inside : ∀ place ∈ places, cursor ≤ place ∧ place ≤ stop) :
    inserted source cursor stop (places.map fun place => (place, [])) =
      slice source cursor stop := by
  -- Where nothing is put in, the stretches before and behind the place meet.
  induction places generalizing cursor with
  | nil => rfl
  | cons place rest ih =>
    obtain ⟨after, before⟩ := inside place List.mem_cons_self
    rw [List.pairwise_cons] at ordered
    rw [List.map_cons, inserted, List.append_nil,
      ih before ordered.2 fun later member =>
        ⟨ordered.1 later member, (inside later (List.mem_cons_of_mem _ member)).2⟩]
    exact slice_append_slice source after before

/-- The nodes whose comments some fragments show. -/
def remarked (fragments : List Fragment) : List Tree :=
  fragments.filterMap fun fragment =>
    match fragment with
    | .remarks t => if t.isCommented then some t else none
    | _ => none

/-- No fragments show no comments. -/
@[simp] theorem remarked_nil : remarked [] = [] := rfl

/-- The comments of two lists of fragments are shown one after the other. -/
@[simp] theorem remarked_append (first rest : List Fragment) :
    remarked (first ++ rest) = remarked first ++ remarked rest :=
  List.filterMap_append

/-- Copied letters show no comments. -/
@[simp] theorem remarked_copied (region : Region) (rest : List Fragment) :
    remarked (.copied region :: rest) = remarked rest := rfl

/-- Printed letters show no comments. -/
@[simp] theorem remarked_printed (text : Text) (rest : List Fragment) :
    remarked (.printed text :: rest) = remarked rest := rfl

/-- Remarks show the comments of their node, if it has any. -/
theorem remarked_remarks (t : Tree) (rest : List Fragment) :
    remarked (.remarks t :: rest) = [t].filter Tree.isCommented ++ remarked rest := by
  cases commented : t.isCommented <;> simp [remarked, commented]

/-- A node without comments has nothing before it. -/
theorem commentsBefore_eq_nil {source : Source} {t : Tree} (bare : t.isCommented = false) :
    commentsBefore source t = [] := by
  -- Comments are only put before a node that has some.
  have none : t.mark.comments.isEmpty := by simpa [Tree.isCommented] using bare
  rw [commentsBefore, if_pos none]

/-- Fragments that copy a stretch of the source from end to end, with comments only where their
nodes start. -/
inductive Covers : Nat → Nat → List Fragment → Prop where
  | nil (place : Nat) : Covers place place []
  | copied {start middle stop : Nat} {rest : List Fragment} (forward : start ≤ middle)
      (more : Covers middle stop rest) : Covers start stop (.copied ⟨start, middle⟩ :: rest)
  | remarks {start stop : Nat} {rest : List Fragment} {t : Tree}
      (here : t.readRegion.start = start) (more : Covers start stop rest) :
      Covers start stop (.remarks t :: rest)

namespace Covers

/-- A stretch that is covered has its ends in order. -/
theorem le {start stop : Nat} {fragments : List Fragment} (covers : Covers start stop fragments) :
    start ≤ stop := by
  -- Copied regions run forward, and comments take no room.
  induction covers with
  | nil place => exact Nat.le_refl place
  | copied forward more ih => exact Nat.le_trans forward ih
  | remarks here more ih => exact ih

/-- One stretch that is copied. -/
theorem single {start stop : Nat} (forward : start ≤ stop) :
    Covers start stop [.copied ⟨start, stop⟩] :=
  .copied forward (.nil stop)

/-- Stretches that meet are covered one after the other. -/
theorem append {start middle stop : Nat} {first rest : List Fragment}
    (covers : Covers start middle first) (more : Covers middle stop rest) :
    Covers start stop (first ++ rest) := by
  -- The second list goes where the first is at its end.
  induction covers with
  | nil place => exact more
  | copied forward _ ih => exact .copied forward (ih more)
  | remarks here _ ih => exact .remarks here (ih more)

/-- The comments shown stand inside the stretch. -/
theorem inside {start stop : Nat} {fragments : List Fragment}
    (covers : Covers start stop fragments) :
    ∀ t ∈ remarked fragments, start ≤ t.readRegion.start ∧ t.readRegion.start ≤ stop := by
  -- Copying moves forward, and a comment stands at the place that was reached.
  induction covers with
  | nil place => simp
  | copied forward more ih =>
    intro t member
    have bounds := ih t member
    omega
  | remarks here more ih =>
    intro t member
    rw [remarked_remarks] at member
    rcases List.mem_append.mp member with first | later
    · have same : t = _ := List.mem_singleton.mp (List.mem_filter.mp first).1
      subst same
      exact ⟨by omega, by have := more.le; omega⟩
    · exact ih t later

/-- The comments shown stand in the order of the text. -/
theorem ordered {start stop : Nat} {fragments : List Fragment}
    (covers : Covers start stop fragments) :
    (remarked fragments).Pairwise
      fun first second => first.readRegion.start ≤ second.readRegion.start := by
  -- What follows a comment stands at the place of its node or behind it.
  induction covers with
  | nil place => exact List.Pairwise.nil
  | copied forward more ih => exact ih
  | remarks here more ih =>
    rw [remarked_remarks]
    refine List.pairwise_append.mpr ⟨List.Pairwise.sublist List.filter_sublist (by simp), ih, ?_⟩
    intro first member second later
    have same : first = _ := List.mem_singleton.mp (List.mem_filter.mp member).1
    subst same
    have bounds := more.inside second later
    omega

/-- The letters are those of the source with the comments put in. -/
theorem written_eq {start stop : Nat} {fragments : List Fragment} (source : Source)
    (covers : Covers start stop fragments) :
    written source fragments =
      inserted source start stop ((remarked fragments).map (insertion source)) := by
  induction covers with
  | nil place => simp [inserted, slice_self]
  | @copied start middle stop rest forward more ih =>
    rw [written_cons, text_copied, remarked_copied, ih]
    -- The copied stretch joins the one up to the next comment, or up to the end.
    cases later : remarked rest with
    | nil => exact slice_append_slice source forward more.le
    | cons t others =>
      have bounds := more.inside t (by simp [later])
      simp only [List.map_cons, insertion, inserted]
      rw [← List.append_assoc, ← List.append_assoc, slice_append_slice source forward bounds.1]
  | @remarks start stop rest t here more ih =>
    rw [written_cons, text_remarks, remarked_remarks, ih]
    cases commented : t.isCommented with
    | false => simp [commented, commentsBefore_eq_nil commented]
    | true => simp [commented, inserted, insertion, here, slice_self]

/-- Covering fragments give a stretch of the source with comments put in. -/
theorem annotates {start stop : Nat} {fragments : List Fragment} (source : Source)
    (covers : Covers start stop fragments) :
    Annotates source ⟨start, stop⟩ (remarked fragments) (written source fragments) :=
  ⟨covers.written_eq source, covers.ordered, covers.inside⟩

end Covers

/-- A ranged value is paired with its own region, and its parts are those of the value. -/
theorem mem_ranged {t : Tree} {child : Region × Tree} (member : child ∈ ranged? t) :
    child.2 = t ∧ t.range? = some child.1 := by
  -- A value is paired with the region it tells.
  simp only [ranged?, Option.mem_def, Option.map_eq_some_iff] at member
  obtain ⟨region, found, rfl⟩ := member
  exact ⟨rfl, found⟩

/-- The nodes read directly below a node are known by their regions. -/
theorem range_of_mem_rangedIn {field : String × Tree} {child : Region × Tree}
    (member : child ∈ rangedIn field) : child.2.range? = some child.1 := by
  -- A field holds a list or one value, and in both cases the region is that of the value.
  rw [rangedIn] at member
  split at member
  · simp at member
  · split at member
    · obtain ⟨item, _, found⟩ := List.mem_filterMap.mp member
      obtain ⟨same, range⟩ := mem_ranged found
      rw [same, range]
    · obtain ⟨same, range⟩ := mem_ranged (Option.mem_toList.mp member)
      rw [same, range]

/-- Whatever order they are written in, the children are those that the fields hold. -/
theorem rangedChildren_perm (fields : List (String × Tree)) :
    rangedChildren fields ~ fields.flatMap rangedIn :=
  List.mergeSort_perm _ _

/-- The parts of a value that was read are its parts. -/
theorem flatMap_ranged_sublist (t : Tree) :
    ((ranged? t).toList.flatMap fun child => child.2.parts) <+ t.parts := by
  -- A value without a region gives nothing.
  cases found : ranged? t with
  | none => simp
  | some child => simp [(mem_ranged found).1]

/-- The parts of the nodes read that a field holds are among the parts of the field. -/
theorem flatMap_rangedIn_sublist (field : String × Tree) :
    ((rangedIn field).flatMap fun child => child.2.parts) <+ Tree.fieldParts field := by
  -- Values that were not read are left out, and their parts with them.
  obtain ⟨key, value⟩ := field
  rw [rangedIn, Tree.fieldParts]
  split
  · simp
  · cases value with
    | list items =>
      simp only [Tree.parts_list]
      rw [List.filterMap_eq_flatMap_toList, List.flatMap_assoc]
      exact List.Sublist.flatMap_right items fun item _ => flatMap_ranged_sublist item
    | _ => exact flatMap_ranged_sublist _

/-- The parts of the children of a node are, in some order, among its own parts below it. -/
theorem flatMap_rangedChildren_subperm (fields : List (String × Tree)) :
    ((rangedChildren fields).flatMap fun child => child.2.parts) <+~
      fields.flatMap Tree.fieldParts := by
  -- Sorting by place changes nothing but the order.
  have sorted := (rangedChildren_perm fields).flatMap_right fun child => child.2.parts
  rw [List.flatMap_assoc] at sorted
  exact sorted.subperm.trans
    (List.Sublist.flatMap_right fields fun field _ => flatMap_rangedIn_sublist field).subperm

/-- Putting pieces that cover their regions into a stretch covers the stretch. -/
theorem covers_weaveFragments {cursor stop : Nat} {pieces : List (Region × List Fragment)}
    (bounded : cursor ≤ stop)
    (inside : ∀ piece ∈ pieces, piece.1.stop ≤ stop ∧ Covers piece.1.start piece.1.stop piece.2) :
    Covers cursor stop (weaveFragments cursor stop pieces) := by
  induction pieces generalizing cursor with
  | nil => exact .single bounded
  | cons piece rest ih =>
    obtain ⟨region, fragments⟩ := piece
    obtain ⟨ends, covers⟩ := inside (region, fragments) List.mem_cons_self
    have later := fun other member => inside other (List.mem_cons_of_mem _ member)
    rw [weaveFragments]
    -- A piece that starts too early leaves the cursor where it is.
    split
    · exact ih bounded later
    · rename_i forward
      exact .copied (by omega) (covers.append (ih ends later))

/-- A node that was read is written as its stretch of the source with comments put in. -/
theorem covers_readFragments (t : Tree) (read : t.range?.isSome)
    (forward : t.readRegion.start ≤ t.readRegion.stop) (nested : ∀ part ∈ t.parts, part.Encloses) :
    Covers t.readRegion.start t.readRegion.stop (readFragments t) := by
  -- The recursion follows the nodes read below, for only they are written on their own.
  match t with
  | .node kind mark fields =>
    have below : ∀ child ∈ rangedChildren fields, child.1.stop ≤ (mark.range.getD default).stop ∧
        Covers child.1.start child.1.stop (readFragments child.2) := by
      intro child member
      have held := (rangedChildren_perm fields).mem_iff.mp member
      obtain ⟨field, inField, inside⟩ := List.mem_flatMap.mp held
      have range := range_of_mem_rangedIn inside
      have region : child.2.readRegion = child.1 := by simp [Tree.readRegion, range]
      have within := nested (.node kind mark fields) (Tree.mem_parts_self rfl) read child held
      -- The parts of a child are parts of the node, so the nesting goes on below it.
      have parts : child.2.parts ⊆ (Tree.node kind mark fields).parts := by
        intro part found
        have subset := (flatMap_rangedChildren_subperm fields).subset
        rw [Tree.parts_node]
        exact List.mem_cons_of_mem _ (subset (List.mem_flatMap.mpr ⟨child, member, found⟩))
      have covers := covers_readFragments child.2 (by simp [range])
        (by rw [region]; exact within.2.1) fun part found => nested part (parts found)
      rw [region] at covers
      exact ⟨within.2.2, covers⟩
    rw [readFragments_node]
    refine .remarks rfl ?_
    split
    · refine covers_weaveFragments forward fun piece member => ?_
      obtain ⟨child, held, rfl⟩ := List.mem_map.mp member
      exact below child held
    · exact .single forward
termination_by sizeOf t
decreasing_by exact sizeOf_lt_of_mem_rangedChildren ‹_›

/-- Lists made from the same elements are in the relation that each two of their parts are in. -/
theorem flatMap_subperm {α β : Type} {items : List α} {f g : α → List β}
    (each : ∀ item ∈ items, f item <+~ g item) : items.flatMap f <+~ items.flatMap g := by
  -- One element adds a part to both lists.
  induction items with
  | nil => exact List.Subperm.refl _
  | cons item rest ih =>
    rw [List.flatMap_cons, List.flatMap_cons]
    exact (each item List.mem_cons_self).append
      (ih fun other member => each other (List.mem_cons_of_mem _ member))

/-- Weaving shows comments of the pieces only, each at most once. -/
theorem remarked_weaveFragments (cursor stop : Nat) (pieces : List (Region × List Fragment)) :
    remarked (weaveFragments cursor stop pieces) <+
      pieces.flatMap fun piece => remarked piece.2 := by
  -- A piece that is skipped shows nothing, so some comments may be missing.
  induction pieces generalizing cursor with
  | nil => simp [weaveFragments]
  | cons piece rest ih =>
    obtain ⟨region, fragments⟩ := piece
    rw [weaveFragments, List.flatMap_cons]
    split
    · exact (ih cursor).trans (List.sublist_append_right ..)
    · rw [remarked_copied, remarked_append]
      exact (List.Sublist.refl _).append (ih region.stop)

/-- The comments shown in a node that was read are those of distinct parts of it. -/
theorem remarked_readFragments (t : Tree) :
    remarked (readFragments t) <+~ t.parts.filter Tree.isCommented := by
  -- A node shows its own comments, then at most those of the nodes read below it.
  match t with
  | .node kind mark fields =>
    have below : ∀ child ∈ rangedChildren fields,
        remarked (readFragments child.2) <+~ child.2.parts.filter Tree.isCommented :=
      fun child _ => remarked_readFragments child.2
    have split : (Tree.node kind mark fields).parts =
        [.node kind mark fields] ++ fields.flatMap Tree.fieldParts := Tree.parts_node ..
    rw [readFragments_node, remarked_remarks, split, List.filter_append]
    refine (List.Subperm.refl _).append ?_
    split
    · refine (remarked_weaveFragments ..).subperm.trans ?_
      rw [List.flatMap_map]
      refine (flatMap_subperm below).trans ?_
      rw [← List.filter_flatMap]
      exact (flatMap_rangedChildren_subperm fields).filter Tree.isCommented
    · simp
  | .null => simp [readFragments]
  | .flag _ => simp [readFragments]
  | .number _ => simp [readFragments]
  | .text _ => simp [readFragments]
  | .list _ => simp [readFragments]
termination_by sizeOf t
decreasing_by exact sizeOf_lt_of_mem_rangedChildren ‹_›

/-- The statements of a program that was read stand in a text of some size one after the other. -/
structure LaidOut (size : Nat) (statements : List Tree) : Prop where
  read : ∀ t ∈ statements, t.range?.isSome ∧ t.mark.span = none
  bounded : ∀ t ∈ statements, t.readRegion.Within ⟨0, size⟩
  ordered : statements.Pairwise fun first second =>
    first.readRegion.stop ≤ second.readRegion.start

/-- What holds of all statements after the first. -/
theorem LaidOut.tail {size : Nat} {t : Tree} {rest : List Tree} (laid : LaidOut size (t :: rest)) :
    LaidOut size rest :=
  ⟨fun u member => laid.read u (List.mem_cons_of_mem _ member),
    fun u member => laid.bounded u (List.mem_cons_of_mem _ member),
    (List.pairwise_cons.mp laid.ordered).2⟩

/-- A statement that was read, in its place. -/
def readPlaced (t : Tree) : Placed :=
  { region := t.readRegion, inserted := false, fragments := readFragments t }

/-- A statement that was read is placed where it was read. -/
theorem placed_read (source : Source) {t : Tree} (read : t.range?.isSome)
    (spanless : t.mark.span = none) : placed source t = .ok (readPlaced t) := by
  -- Without a span a statement stands where it was read, and all of it is copied.
  obtain ⟨region, found⟩ := Option.isSome_iff_exists.mp read
  have stands : t.region? = some region := by
    rw [← found, Tree.region?, spanless]
    rfl
  have whole : t.readRegion = region := by rw [Tree.readRegion, found, Option.getD_some]
  rw [placed, stands, fragmentsOf, if_pos read, spanless, readPlaced, whole]
  rfl

/-- A function that succeeds on every element succeeds on the list. -/
theorem mapM_eq_ok {α β ε : Type} {f : α → Except ε β} {g : α → β} {items : List α}
    (each : ∀ item ∈ items, f item = .ok (g item)) : items.mapM f = .ok (items.map g) := by
  -- No element stops the run.
  induction items with
  | nil => rfl
  | cons item rest ih =>
    rw [List.mapM_cons, each item List.mem_cons_self,
      ih fun other member => each other (List.mem_cons_of_mem _ member)]
    rfl

/-- A function that succeeds on a list does so on every element, one by one. -/
theorem forall₂_of_mapM {α β ε : Type} {f : α → Except ε β} {items : List α} {results : List β}
    (known : items.mapM f = .ok results) :
    List.Forall₂ (fun item result => f item = .ok result) items results := by
  induction items generalizing results with
  | nil =>
    cases known
    exact .nil
  | cons item rest ih =>
    -- A fault of the first element or of the rest would be that of the whole list.
    rw [List.mapM_cons] at known
    cases here : f item with
    | error fault =>
      rw [here] at known
      cases known
    | ok first =>
      cases later : rest.mapM f with
      | error fault =>
        rw [here, later] at known
        cases known
      | ok others =>
        rw [here, later] at known
        cases known
        exact .cons here (ih later)

/-- The statements of a program that was read cover the source with what stands between them. -/
theorem covers_composeFragments {source : Source} {cursor : Nat} {statements : List Tree}
    (laid : LaidOut source.size statements) (bounded : cursor ≤ source.size)
    (after : ∀ t ∈ statements, cursor ≤ t.readRegion.start)
    (nested : ∀ t ∈ statements, ∀ part ∈ t.parts, part.Encloses) :
    Covers cursor source.size
      (composeFragments source cursor false (statements.map readPlaced)) := by
  -- Induction on the statements, with the cursor at the end of the one before.
  induction statements generalizing cursor with
  | nil =>
    simp only [List.map_nil, composeFragments, gapFragments, Bool.false_and, Bool.false_eq_true,
      if_false]
    exact .single bounded
  | cons t rest ih =>
    obtain ⟨_, forward, ends⟩ := laid.bounded t List.mem_cons_self
    have starts := after t List.mem_cons_self
    have covers := covers_readFragments t (laid.read t List.mem_cons_self).1 forward
      (nested t List.mem_cons_self)
    -- The cursor moves to the end of the statement, before all later ones.
    have moved : max cursor t.readRegion.stop = t.readRegion.stop :=
      Nat.max_eq_right (Nat.le_trans starts forward)
    have later := ih laid.tail ends (List.pairwise_cons.mp laid.ordered).1
      fun u member => nested u (List.mem_cons_of_mem _ member)
    simp only [List.map_cons, composeFragments, gapFragments, readPlaced, Bool.false_and,
      Bool.false_eq_true, if_false, moved]
    exact .copied starts (covers.append later)

/-- Composing shows the comments of the statements, one statement after the other. -/
theorem remarked_composeFragments (source : Source) (cursor : Nat) (due : Bool)
    (all : List Placed) :
    remarked (composeFragments source cursor due all) =
      all.flatMap fun p => remarked p.fragments := by
  -- What stands between statements is copied or a line break, and shows no comments.
  have gap (due : Bool) (region : Region) : remarked (gapFragments source due region) = [] := by
    rw [gapFragments]
    split <;> simp
  induction all generalizing cursor due with
  | nil => simp [composeFragments, gap]
  | cons p rest ih => simp [composeFragments, gap, ih]

/-- The fragments of a program that was read. -/
theorem programFragments_read (source : Source) {program : Tree}
    (laid : LaidOut source.size (program.get "body").items) :
    programFragments source program =
      .ok (composeFragments source 0 false ((program.get "body").items.map readPlaced)) := by
  -- Each statement was read and has no span.
  rw [programFragments, mapM_eq_ok fun t member =>
    placed_read source (laid.read t member).1 (laid.read t member).2]
  rfl

/-- The comments shown in a program that was read are those of distinct parts of it. -/
theorem remarked_program (source : Source) (program : Tree) :
    remarked (composeFragments source 0 false ((program.get "body").items.map readPlaced)) <+~
      program.parts.filter Tree.isCommented := by
  -- The parts of the statements are parts of the program.
  rw [remarked_composeFragments, List.flatMap_map]
  refine (flatMap_subperm fun t _ => remarked_readFragments t).trans ?_
  rw [← List.filter_flatMap]
  exact ((Tree.flatMap_parts_sublist program rfl).filter _).subperm

/-- The comments before a node that was read are shown where it is written. -/
theorem mem_remarked_readFragments {t : Tree} (read : t.range?.isSome)
    (commented : t.isCommented) : t ∈ remarked (readFragments t) := by
  -- The comments of a node come first, before anything that lies below it.
  cases t with
  | node kind mark fields =>
    rw [readFragments_node, remarked_remarks]
    exact List.mem_append_left _ (List.mem_filter.mpr ⟨List.mem_singleton_self _, commented⟩)
  | _ => simp [Tree.range?, Tree.mark] at read

/-- Ending the last line adds at most a newline. -/
theorem endLine_eq (text : Text) : endLine text = text ∨ endLine text = text ++ "\n" := by
  -- A text that ends its last line, or has none, is left alone.
  rw [endLine]
  split
  · exact .inl rfl
  · exact .inr rfl

/-- A program is emitted as its text, with at most one newline after it. -/
theorem emit_of_programText {source text : Text} {program : Tree}
    (result : programText source.toArray program = .ok text) (ending : Bool) :
    ∃ emitted, emit source ending program = .ok emitted ∧
      (emitted.text = text ∨ emitted.text = text ++ "\n") := by
  -- Only the end of the last line is up to the setting.
  refine ⟨_, by rw [emit, result]; rfl, ?_⟩
  cases ending with
  | false => exact .inl rfl
  | true => exact endLine_eq text

/-- A program that was read is written as its source, with the comments before some of its nodes
put in where those nodes start, whichever nodes are commented and whichever are flagged. -/
theorem programText_annotates {source : Text} {program : Tree}
    (laid : LaidOut source.length (program.get "body").items)
    (nested : ∀ part ∈ program.parts, part.Encloses) :
    ∃ shown text, programText source.toArray program = .ok text ∧
      Annotates source.toArray ⟨0, source.length⟩ shown text ∧
      shown <+~ program.parts.filter Tree.isCommented ∧
      (∀ t ∈ (program.get "body").items, t.isCommented → t ∈ shown) ∧
      inserted source.toArray 0 source.length
        (shown.map fun t => (t.readRegion.start, [])) = source ∧
      ((∀ part ∈ program.parts, part.isCommented = false) → text = source) ∧
      ∀ ending, ∃ emitted, emit source ending program = .ok emitted ∧
        (emitted.text = text ∨ emitted.text = text ++ "\n") := by
  have size : source.toArray.size = source.length := List.size_toArray
  have statements : ∀ t ∈ (program.get "body").items, ∀ part ∈ t.parts, part.Encloses :=
    fun t member part found =>
      nested part ((Tree.parts_sublist_of_mem_get rfl member).subset found)
  let fragments := composeFragments source.toArray 0 false
    ((program.get "body").items.map readPlaced)
  have covers : Covers 0 source.length fragments := by
    rw [← size]
    exact covers_composeFragments (by rw [size]; exact laid) (Nat.zero_le _)
      (fun _ _ => Nat.zero_le _) statements
  have result : programText source.toArray program = .ok (written source.toArray fragments) := by
    rw [programText_eq, programFragments_read source.toArray (by rw [size]; exact laid)]
    rfl
  have annotates := covers.annotates source.toArray
  have whole : slice source.toArray 0 source.length = source := by rw [← size, slice_all]
  refine ⟨remarked fragments, _, result, annotates, remarked_program _ _, ?_, ?_, ?_,
    emit_of_programText result⟩
  · intro t member commented
    rw [remarked_composeFragments, List.flatMap_map]
    exact List.mem_flatMap.mpr
      ⟨t, member, mem_remarked_readFragments (laid.read t member).1 commented⟩
  · -- Without their texts the insertions leave the source.
    have blank := inserted_blank source.toArray (Nat.zero_le _)
      (List.pairwise_map.mpr annotates.ordered) (List.forall_mem_map.mpr annotates.inside)
    rw [List.map_map] at blank
    exact blank.trans whole
  · intro bare
    -- Comments are shown of commented parts only, so there are none to show.
    have none : remarked fragments = [] := by
      rw [List.eq_nil_iff_forall_not_mem]
      intro t member
      have found := List.mem_filter.mp ((remarked_program _ _).subset member)
      rw [bare t found.1] at found
      exact Bool.false_ne_true found.2
    rw [annotates.text_eq, none]
    exact whole

/-- The text `({ a });` with comments before the two nodes that its property has at one place. -/
def shorthandSample : Tree :=
  -- Key and value are the same name at the same place, each with a comment of its own.
  let name (comment : Text) : Tree :=
    .node (some "Identifier") { range := some ⟨3, 4⟩, comments := [comment] } [("name", .text "a")]
  .node (some "Program") { range := some ⟨0, 8⟩ } [("body", .list [
    .node (some "ExpressionStatement") { range := some ⟨0, 8⟩, modified := true } [("expression",
      .node (some "ObjectExpression") { range := some ⟨1, 6⟩, modified := true } [("properties",
        .list [.node (some "Property") { range := some ⟨3, 4⟩, modified := true }
          [("key", name "key"), ("value", name "value")]])])]])]

/-- Of two nodes at one place the comments of the first are put in. -/
theorem programText_annotates_shorthand :
    let source : Text := "(\x7b a \x7d);"
    LaidOut source.length (shorthandSample.get "body").items ∧
      (∀ part ∈ shorthandSample.parts, part.Encloses) ∧
      ∃ shown text, programText source.toArray shorthandSample = .ok text ∧
        Annotates source.toArray ⟨0, source.length⟩ shown text := by
  -- That the statements are in order and that ranges lie in each other is decided.
  have laid : LaidOut 8 (shorthandSample.get "body").items :=
    ⟨by decide, by decide, by decide⟩
  have nested : ∀ part ∈ shorthandSample.parts, part.Encloses := by decide
  obtain ⟨shown, text, result, annotates, _⟩ :=
    @programText_annotates "(\x7b a \x7d);" shorthandSample laid nested
  exact ⟨laid, nested, shown, text, result, annotates⟩

end Emission

end ModuleLift
