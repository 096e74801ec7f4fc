import ModuleLift.Proofs.Tree.Bare

/-! Comments before buried calls of `require`: which nodes gain one, and what the flags above them
tell. -/

namespace ModuleLift.Tree

open scoped List

/-- The parts with comments to write before them, outer ones first. -/
def marked (t : Tree) : List Tree := t.parts.filter isCommented

/-- The marked parts that come from one field. -/
def fieldMarked (field : String × Tree) : List Tree :=
  if isNoteKey field.1 then [] else field.2.marked

/-- Nothing is marked in what is no node. -/
@[simp] theorem marked_null : null.marked = [] := rfl

/-- Nothing is marked in a text. -/
@[simp] theorem marked_text (value : Text) : (text value).marked = [] := rfl

/-- What is marked in a list is marked in its items. -/
@[simp] theorem marked_list (items : List Tree) : (list items).marked = items.flatMap marked := by
  -- The parts of a list are those of its items.
  rw [marked, parts_list, List.filter_flatMap]
  rfl

/-- What is marked in a node is the node itself, if it has comments, and what is marked in its
fields. -/
@[simp] theorem marked_node (kind : Option String) (mark : Mark) (fields : List (String × Tree)) :
    (node kind mark fields).marked =
      [node kind mark fields].filter isCommented ++ fields.flatMap fieldMarked := by
  -- Selecting from the parts of a node is selecting from the node and from each field.
  have split : (node kind mark fields).parts =
      [node kind mark fields] ++ fields.flatMap fieldParts := parts_node ..
  rw [marked, split, List.filter_append, List.filter_flatMap]
  congr 2
  funext field
  rw [fieldParts, fieldMarked]
  split <;> rfl

/-- What is marked in a part is marked in the whole. -/
theorem marked_sublist {whole part : Tree} (inside : part.parts <+ whole.parts) :
    part.marked <+ whole.marked :=
  inside.filter isCommented

/-- In a tree without comments no part has any. -/
theorem marked_of_mem {whole part : Tree} (fresh : whole.marked = [])
    (member : part ∈ whole.parts) : part.marked = [] :=
  List.sublist_nil.mp (fresh ▸ marked_sublist (parts_sublist member))

/-- What is marked in a node without comments of its own lies in its fields. -/
theorem fieldMarked_of_fresh {kind : Option String} {mark : Mark} {fields : List (String × Tree)}
    (fresh : (node kind mark fields).marked = []) {field : String × Tree} (held : field ∈ fields) :
    isNoteKey field.1 = false → field.2.marked = [] := by
  intro entered
  -- Of the node and its fields nothing is marked, in particular not in this field.
  rw [marked_node, List.append_eq_nil_iff, List.flatMap_eq_nil_iff] at fresh
  have inField := fresh.2 field held
  rwa [fieldMarked, entered, if_neg Bool.false_ne_true] at inField

/-- The nodes the walk meets that hold a call of `require` below the top level. -/
def loaders (nested : Bool) (t : Tree) : List Tree :=
  ((visits nested t).filter fun v => v.nested && v.node.holdsLoader).map (·.node)

/-- What the walk finds in a field, if it enters it. -/
def fieldLoaders (nested : Bool) (enters : String → Bool) (field : String × Tree) : List Tree :=
  if enters field.1 then field.2.loaders nested else []

/-- The walk meets in several trees what it meets in each. -/
theorem visitsAll_eq (nested : Bool) (items : List Tree) :
    visitsAll nested items = items.flatMap (visits nested) := by
  -- The recursion is that of a `flatMap`.
  induction items with
  | nil => rfl
  | cons t rest ih => rw [visitsAll, List.flatMap_cons, ih]

/-- The walk meets in fields what it meets in those it enters. -/
theorem visitsFields_eq (nested : Bool) (enters : String → Bool) (fields : List (String × Tree)) :
    visitsFields nested enters fields =
      fields.flatMap fun field => if enters field.1 then visits nested field.2 else [] := by
  -- Fields that are passed over add nothing.
  induction fields with
  | nil => rfl
  | cons field rest ih =>
    obtain ⟨key, value⟩ := field
    rw [visitsFields, List.flatMap_cons, ih]

/-- What the walk meets in a list it meets in an item. -/
theorem mem_visits_list {nested : Bool} {items : List Tree} {v : Visit} :
    v ∈ visits nested (list items) ↔ ∃ item ∈ items, v ∈ visits nested item := by
  rw [visits, visitsAll_eq, List.mem_flatMap]

/-- What the walk meets in a node: the node itself, and what it meets in the fields it enters. -/
theorem mem_visits_node {nested : Bool} {kind : Option String} {mark : Mark}
    {fields : List (String × Tree)} {v : Visit} :
    v ∈ visits nested (node kind mark fields) ↔ v = ⟨node kind mark fields, nested⟩ ∨
      (kind == some "Identifier") = false ∧ ∃ field ∈ fields,
        entersField kind (computedIn fields) field.1 ∧
          v ∈ visits (kind != some "Program") field.2 := by
  -- A name is not entered; any other node is entered by the fields that are allowed.
  rw [visits, List.mem_cons, visitsFields_eq]
  refine or_congr_right ?_
  cases kind == some "Identifier" with
  | true => simp
  | false => simp [List.mem_flatMap]

/-- The calls of `require` in a list are those in its items. -/
@[simp] theorem loaders_list (nested : Bool) (items : List Tree) :
    (list items).loaders nested = items.flatMap (loaders nested) := by
  -- Selecting commutes with joining what is met in each item.
  rw [loaders, visits, visitsAll_eq, List.filter_flatMap, List.map_flatMap]
  rfl

/-- The calls of `require` in a node: its own, if it is buried, and those in the fields that the
walk enters. -/
theorem loaders_node (nested : Bool) (kind : Option String) (mark : Mark)
    (fields : List (String × Tree)) :
    (node kind mark fields).loaders nested =
      (if nested && (node kind mark fields).holdsLoader then [node kind mark fields] else []) ++
        if kind == some "Identifier" then []
        else fields.flatMap
          (fieldLoaders (kind != some "Program") (entersField kind (computedIn fields))) := by
  -- The walk visits the node first, then the fields that it enters.
  rw [loaders, visits, ← List.singleton_append, List.filter_append, List.map_append]
  congr 1
  · rw [List.filter_cons, List.filter_nil]
    split <;> rfl
  · split
    · rfl
    · rw [visitsFields_eq, List.filter_flatMap, List.map_flatMap]
      refine List.flatMap_congr fun field _ => ?_
      rw [fieldLoaders]
      split <;> rfl

/-- A node that holds a call of `require` is a declaration or an expression statement. -/
theorem kind_of_holdsLoader {t : Tree} (holds : t.holdsLoader) :
    t.isA "VariableDeclaration" ∨ t.isA "ExpressionStatement" := by
  -- These are the kinds that are asked about calls; all others are answered at once.
  rw [holdsLoader] at holds
  split at holds
  · exact .inl ‹_›
  · split at holds
    · exact .inr ‹_›
    · cases holds

/-- The mark of a node with a comment before it, if it holds a call itself, and flagged, if a
comment was added below. -/
def commentedMark (marker : Text) (here below : Bool) (mark : Mark) : Mark :=
  { (if here then mark.addComment marker else mark) with modified := mark.modified || below }

/-- The first comment before a node is the only one. -/
theorem comments_commentedMark {marker : Text} {here below : Bool} {mark : Mark}
    (fresh : mark.comments = []) :
    (commentedMark marker here below mark).comments = if here then [marker] else [] := by
  -- A comment is added behind those that are there, of which there are none.
  rw [commentedMark]
  cases here with
  | false => exact fresh
  | true => simp [Mark.addComment, fresh]

/-- Comments and flags leave the rest of a mark as it is. -/
theorem bare_commentedMark (marker : Text) (here below : Bool) (mark : Mark) :
    (commentedMark marker here below mark).bare = mark.bare := by
  -- A bare mark has neither comments nor flags.
  rw [commentedMark]
  cases here with
  | false => rfl
  | true => exact Mark.bare_addComment mark marker

/-- Whether a comment is added in one of the fields of a node. -/
def addsBelow (marker : Text) (kind : Option String) (fields : List (String × Tree)) : Bool :=
  fields.any fun field => entersField kind (computedIn fields) field.1 &&
    (field.2.annotate marker (kind != some "Program")).2

/-- Several trees are flagged if one of them is. -/
theorem annotateAll_snd (marker : Text) (nested : Bool) (items : List Tree) :
    (annotateAll marker nested items).2 = items.any fun t => (t.annotate marker nested).2 := by
  -- The flag is joined along the list.
  induction items with
  | nil => rfl
  | cons t rest ih => rw [annotateAll, List.any_cons, ← ih]

/-- Fields are flagged if one that is entered is. -/
theorem annotateFields_snd (marker : Text) (nested : Bool) (enters : String → Bool)
    (fields : List (String × Tree)) :
    (annotateFields marker nested enters fields).2 =
      fields.any fun field => enters field.1 && (field.2.annotate marker nested).2 := by
  -- A field that is not entered keeps its value and its silence.
  induction fields with
  | nil => rfl
  | cons field rest ih =>
    rw [annotateFields, List.any_cons, ← ih]
    cases enters field.1 <;> rfl

/-- What a node becomes when buried calls are commented. -/
theorem annotate_node {kind : Option String} (mark : Mark) (fields : List (String × Tree))
    (marker : Text) (nested : Bool) (entered : (kind == some "Identifier") = false) :
    (node kind mark fields).annotate marker nested =
      let here := nested && (node kind mark fields).holdsLoader
      let below := addsBelow marker kind fields
      (node kind (commentedMark marker here below mark) (fields.map (annotateField marker
        (kind != some "Program") (entersField kind (computedIn fields)))),
        (here && !mark.comments.contains marker) || below) := by
  -- The walk hands back the tree and the flag together; here they are told apart.
  rw [annotate, if_neg (by simp [entered])]
  simp only [annotateFields_fst, addsBelow, ← annotateFields_snd]
  rfl

/-- A field that the walk enters holds no notes. -/
theorem noteless_of_enters {kind : Option String} {computed : Bool} {key : String}
    (enters : entersField kind computed key) : isNoteKey key = false := by
  -- Fields with notes are the first thing that the walk leaves out.
  rw [entersField] at enters
  cases note : isNoteKey key with
  | false => rfl
  | true => simp [note] at enters

/-- A node without comments has none of its own. -/
theorem comments_of_fresh {kind : Option String} {mark : Mark} {fields : List (String × Tree)}
    (fresh : (node kind mark fields).marked = []) : mark.comments = [] := by
  -- A node with comments would be the first thing marked in it.
  rw [marked_node, List.append_eq_nil_iff, List.filter_eq_nil_iff] at fresh
  have bare := fresh.1 _ (List.mem_singleton_self _)
  simpa [isCommented, Tree.mark] using bare

/-- A name holds no call of `require`. -/
theorem holdsLoader_identifier {kind : Option String} (mark : Mark) (fields : List (String × Tree))
    (isName : (kind == some "Identifier") = true) :
    (node kind mark fields).holdsLoader = false := by
  -- The kind decides, and that of a name is neither of the two.
  rw [beq_iff_eq] at isName
  subst isName
  rfl

/-- A comment is said to be added unless the walk finds no call. -/
theorem annotate_snd_eq_false {marker : Text} {nested : Bool} {t : Tree} (fresh : t.marked = []) :
    (t.annotate marker nested).2 = false ↔ t.loaders nested = [] := by
  -- Induction on the tree: the flag is raised at a call, and handed up from below.
  induction t using Tree.induction generalizing nested with
  | null => exact ⟨fun _ => rfl, fun _ => rfl⟩
  | flag value => exact ⟨fun _ => rfl, fun _ => rfl⟩
  | number value => exact ⟨fun _ => rfl, fun _ => rfl⟩
  | text value => exact ⟨fun _ => rfl, fun _ => rfl⟩
  | list items ih =>
    rw [marked_list, List.flatMap_eq_nil_iff] at fresh
    rw [annotate, loaders_list, List.flatMap_eq_nil_iff, annotateAll_snd, List.any_eq_false]
    refine forall₂_congr fun item held => ?_
    rw [Bool.not_eq_true]
    exact ih item held (fresh item held)
  | node kind mark fields ih =>
    rw [loaders_node]
    cases isName : kind == some "Identifier" with
    | true =>
      rw [annotate, if_pos isName, holdsLoader_identifier mark fields isName]
      simp
    | false =>
      -- A field adds a comment exactly if the walk enters it and finds a call in it.
      have below (field : String × Tree) (held : field ∈ fields) :
          ¬(entersField kind (computedIn fields) field.1 &&
            (field.2.annotate marker (kind != some "Program")).2) = true ↔
          fieldLoaders (kind != some "Program") (entersField kind (computedIn fields)) field =
            [] := by
        rw [fieldLoaders]
        cases entered : entersField kind (computedIn fields) field.1 with
        | false => simp
        | true =>
          have known := fieldMarked_of_fresh fresh held (noteless_of_enters entered)
          simpa using ih field held known
      rw [annotate_node mark fields marker nested isName, List.append_eq_nil_iff]
      simp only [Bool.or_eq_false_iff, comments_of_fresh fresh, addsBelow, List.any_eq_false]
      refine and_congr ?_ ?_
      · simp
      · rw [if_neg Bool.false_ne_true, List.flatMap_eq_nil_iff]
        exact forall₂_congr below

/-- A comment before a node does not change where it stands. -/
theorem region_commentedMark (kind : Option String) (marker : Text) (here below : Bool)
    (mark : Mark) (fields inner : List (String × Tree)) :
    (node kind (commentedMark marker here below mark) inner).region? =
      (node kind mark fields).region? := by
  -- A region is read off the span and the range, neither of which a comment changes.
  have same := bare_commentedMark marker here below mark
  have span := congrArg Mark.span same
  have range := congrArg Mark.range same
  simp only [Mark.bare] at span range
  simp only [region?, Tree.mark, span, range]

/-- The nodes that gain a comment are those at which the walk finds a call, and they stand where
those stand. -/
theorem regions_marked_annotate {marker : Text} {nested : Bool} {t : Tree} (fresh : t.marked = []) :
    (t.annotate marker nested).1.marked.map region? = (t.loaders nested).map region? := by
  -- Both lists are built alike: the node itself, then its fields in order.
  induction t using Tree.induction generalizing nested with
  | null => rfl
  | flag value => rfl
  | number value => rfl
  | text value => rfl
  | list items ih =>
    rw [marked_list, List.flatMap_eq_nil_iff] at fresh
    rw [annotate, loaders_list, marked_list, annotateAll_fst, List.flatMap_map, List.map_flatMap,
      List.map_flatMap]
    exact List.flatMap_congr fun item held => ih item held (fresh item held)
  | node kind mark fields ih =>
    rw [loaders_node]
    cases isName : kind == some "Identifier" with
    | true =>
      rw [annotate, if_pos isName, holdsLoader_identifier mark fields isName, fresh]
      simp
    | false =>
      rw [annotate_node mark fields marker nested isName]
      simp only [marked_node, List.map_append, Bool.false_eq_true, if_false]
      congr 1
      · -- The node itself gains its first comment, or none.
        rw [List.filter_singleton, isCommented, Tree.mark,
          comments_commentedMark (comments_of_fresh fresh)]
        cases nested && (node kind mark fields).holdsLoader with
        | false => rfl
        | true => exact congrArg (fun region => [region]) (region_commentedMark ..)
      · rw [List.flatMap_map, List.map_flatMap, List.map_flatMap]
        refine List.flatMap_congr fun field held => ?_
        rw [fieldMarked, annotateField, fieldLoaders]
        -- A field that the walk passes over stays as it was, without comments.
        cases entered : entersField kind (computedIn fields) field.1 with
        | true =>
          have noteless := noteless_of_enters entered
          rw [noteless]
          exact ih field held (fieldMarked_of_fresh fresh held noteless)
        | false =>
          cases note : isNoteKey field.1 with
          | true => rfl
          | false =>
            have none := fieldMarked_of_fresh fresh held note
            simp [none]

/-- A tree is free of comments after commenting if the walk finds no call in it. -/
theorem marked_annotate_eq_nil {marker : Text} {nested : Bool} {t : Tree} (fresh : t.marked = []) :
    (t.annotate marker nested).1.marked = [] ↔ t.loaders nested = [] := by
  -- There are as many comments after it as there are calls, and both are told by their places.
  have same := @regions_marked_annotate marker nested t fresh
  rw [← List.map_eq_nil_iff (f := region?), same, List.map_eq_nil_iff]

/-- A part of a commented tree is what commenting made of a node the walk meets, or it lies where
the walk does not go, and nothing in it has a comment. -/
theorem mem_parts_annotate {marker : Text} {nested : Bool} {t part : Tree} (fresh : t.marked = [])
    (member : part ∈ (t.annotate marker nested).1.parts) :
    part.marked = [] ∨ ∃ kind mark fields deep, ⟨node kind mark fields, deep⟩ ∈ visits nested t ∧
      (kind == some "Identifier") = false ∧ (node kind mark fields).marked = [] ∧
      part = ((node kind mark fields).annotate marker deep).1 := by
  -- Follow the part down: on each level the walk goes on, or the tree is left as it was.
  induction t using Tree.induction generalizing nested with
  | null => simp [annotate] at member
  | flag value => simp [annotate] at member
  | number value => simp [annotate] at member
  | text value => simp [annotate] at member
  | list items ih =>
    rw [marked_list, List.flatMap_eq_nil_iff] at fresh
    rw [annotate, parts_list, annotateAll_fst, List.flatMap_map] at member
    obtain ⟨item, held, inside⟩ := List.mem_flatMap.mp member
    rcases ih item held (fresh item held) inside with clear | ⟨kind, mark, fields, deep, met, rest⟩
    · exact .inl clear
    · exact .inr ⟨kind, mark, fields, deep, mem_visits_list.mpr ⟨item, held, met⟩, rest⟩
  | node kind mark fields ih =>
    cases isName : kind == some "Identifier" with
    | true =>
      rw [annotate, if_pos isName] at member
      exact .inl (marked_of_mem fresh member)
    | false =>
      have made := annotate_node mark fields marker nested isName
      rw [made, parts_node] at member
      -- The part is what the node became, or it lies in one of the fields.
      rcases List.mem_cons.mp member with rfl | below
      · exact .inr ⟨kind, mark, fields, nested, mem_visits_node.mpr (.inl rfl), isName, fresh,
          by rw [made]⟩
      · rw [List.flatMap_map] at below
        obtain ⟨field, held, inside⟩ := List.mem_flatMap.mp below
        rw [fieldParts, annotateField] at inside
        cases note : isNoteKey field.1 with
        | true => simp [note] at inside
        | false =>
          have clear := fieldMarked_of_fresh fresh held note
          rw [note, if_neg Bool.false_ne_true] at inside
          cases entered : entersField kind (computedIn fields) field.1 with
          | false =>
            rw [entered, if_neg Bool.false_ne_true] at inside
            exact .inl (marked_of_mem clear inside)
          | true =>
            rw [entered, if_pos rfl] at inside
            rcases ih field held clear inside with none | ⟨_, _, _, _, met, rest⟩
            · exact .inl none
            · exact .inr ⟨_, _, _, _,
                mem_visits_node.mpr (.inr ⟨isName, field, held, entered, met⟩), rest⟩

/-- What commenting makes of a node the walk meets is a part of the commented tree. -/
theorem annotate_mem_parts {marker : Text} {nested : Bool} {t : Tree} {v : Visit}
    (met : v ∈ visits nested t) :
    (v.node.annotate marker v.nested).1 ∈ (t.annotate marker nested).1.parts := by
  -- The same way down, this time led by what the walk meets.
  induction t using Tree.induction generalizing nested with
  | list items ih =>
    obtain ⟨item, held, inside⟩ := mem_visits_list.mp met
    rw [annotate, parts_list, annotateAll_fst, List.flatMap_map]
    exact List.mem_flatMap.mpr ⟨item, held, ih item held inside⟩
  | node kind mark fields ih =>
    -- What is met is the node itself, or it is met in a field.
    rcases mem_visits_node.mp met with rfl | ⟨isName, field, held, entered, inside⟩
    · refine mem_parts_self ?_
      rw [annotate]
      split <;> rfl
    · rw [annotate_node mark fields marker nested isName, parts_node, List.flatMap_map]
      refine List.mem_cons_of_mem _ (List.mem_flatMap.mpr ⟨field, held, ?_⟩)
      rw [fieldParts, annotateField, noteless_of_enters entered, if_neg Bool.false_ne_true, entered,
        if_pos rfl]
      exact ih field held inside
  | _ => cases met

/-- What the comments and the flag of a node say: comments stand before declarations and expression
statements only, and without the flag there are none below. -/
structure Flagged (t : Tree) : Prop where
  kinds : t.isCommented → t.isA "VariableDeclaration" ∨ t.isA "ExpressionStatement"
  below : t.mark.modified = false → t.fields.flatMap fieldMarked = []

/-- Where there are no comments, the flags may be what they are. -/
theorem flagged_of_fresh {t : Tree} (fresh : t.marked = []) : t.Flagged := by
  -- There are no comments, neither at the node nor below it, that would ask for a flag.
  cases t with
  | node kind mark fields =>
    have comments := comments_of_fresh fresh
    rw [marked_node, List.append_eq_nil_iff] at fresh
    exact ⟨fun commented => by simp [isCommented, Tree.mark, comments] at commented,
      fun _ => fresh.2⟩
  | _ => exact ⟨fun commented => by simp [isCommented, Tree.mark] at commented, fun _ => rfl⟩

/-- A tree without comments has none before it. -/
theorem not_isCommented_of_fresh {t : Tree} (fresh : t.marked = []) : t.isCommented = false := by
  -- Only nodes have comments at all.
  cases t with
  | node kind mark fields => simp [isCommented, Tree.mark, comments_of_fresh fresh]
  | _ => rfl

/-- Commenting flags the nodes above every comment that it adds. -/
theorem flagged_annotate {marker : Text} {nested : Bool} {t : Tree} (fresh : t.marked = []) :
    ∀ part ∈ (t.annotate marker nested).1.parts, part.Flagged := by
  -- Parts outside the walk have no comments, and all others were made by commenting.
  intro part member
  rcases mem_parts_annotate fresh member with
    clear | ⟨kind, mark, fields, deep, _, isName, clear, rfl⟩
  · exact flagged_of_fresh clear
  · rw [annotate_node mark fields marker deep isName]
    refine ⟨fun commented => ?_, fun unflagged => ?_⟩
    · rw [isCommented, Tree.mark, comments_commentedMark (comments_of_fresh clear)] at commented
      -- The comment is there because the node holds a call.
      have holds : (node kind mark fields).holdsLoader := by
        cases known : (node kind mark fields).holdsLoader with
        | false => simp [known] at commented
        | true => rfl
      have kinds := kind_of_holdsLoader holds
      exact kinds
    · -- No field had a comment added, and there were none before.
      have quiet := (Bool.or_eq_false_iff.mp unflagged).2
      rw [addsBelow, List.any_eq_false] at quiet
      rw [Tree.fields, List.flatMap_map, List.flatMap_eq_nil_iff]
      intro field held
      have known := quiet field held
      rw [fieldMarked, annotateField]
      cases note : isNoteKey field.1 with
      | true => rfl
      | false =>
        have none := fieldMarked_of_fresh clear held note
        cases entered : entersField kind (computedIn fields) field.1 with
        | false => simpa using none
        | true =>
          rw [entered, Bool.true_and, Bool.not_eq_true, annotate_snd_eq_false none] at known
          simpa using (marked_annotate_eq_nil none).mpr known

/-- The comments that commenting adds are all the same, one to a node. -/
theorem comments_annotate {marker : Text} {nested : Bool} {t : Tree} (fresh : t.marked = []) :
    ∀ part ∈ (t.annotate marker nested).1.marked, part.mark.comments = [marker] := by
  -- A node had no comments before, and gains this one or none.
  intro part member
  obtain ⟨member, commented⟩ := List.mem_filter.mp member
  rcases mem_parts_annotate fresh member with
    clear | ⟨kind, mark, fields, deep, _, isName, clear, rfl⟩
  · rw [not_isCommented_of_fresh clear] at commented
    cases commented
  · rw [annotate_node mark fields marker deep isName] at commented ⊢
    have comments := @comments_commentedMark marker (deep && (node kind mark fields).holdsLoader)
      (addsBelow marker kind fields) mark (comments_of_fresh clear)
    rw [isCommented, Tree.mark, comments] at commented
    rw [Tree.mark, comments]
    cases here : deep && (node kind mark fields).holdsLoader with
    | false => simp [here] at commented
    | true => rfl

/-- Whether the value is the flag that is set. -/
def isTrue : Tree → Bool
  | .flag value => value
  | _ => false

/-- Whether a node is a property written without its key, as in `{ a }` and `{ a = 1 }`. -/
def isShorthand (t : Tree) : Bool := t.isA "Property" && (t.get "shorthand").isTrue

/-- Whether a property is written without its key is told by the bare tree. -/
theorem isShorthand_bare (t : Tree) : t.bare.isShorthand = t.isShorthand := by
  -- A bare tree has the same fields with the same flags in them.
  have flag (value : Tree) : value.bare.isTrue = value.isTrue := by cases value <;> simp [isTrue]
  simp [isShorthand, isA, flag]

/-- Whether no comment lies in the value of a property written without its key. -/
def Revealed (t : Tree) : Prop :=
  ∀ part ∈ t.parts, part.isShorthand → (part.get "value").marked = []

/-- What a field of a commented node holds. -/
theorem get_annotate {kind : Option String} (mark : Mark) (fields : List (String × Tree))
    (marker : Text) (nested : Bool) (isName : (kind == some "Identifier") = false) (key : String) :
    ((node kind mark fields).annotate marker nested).1.get key =
      if entersField kind (computedIn fields) key then
        (((node kind mark fields).get key).annotate marker (kind != some "Program")).1
      else (node kind mark fields).get key := by
  -- Commenting keeps the names of the fields and their order.
  rw [annotate_node mark fields marker nested isName, get, get, Tree.fields, Tree.fields]
  generalize entersField kind (computedIn fields) = enters
  induction fields with
  | nil => cases enters key <;> rfl
  | cons field rest ih =>
    obtain ⟨name, value⟩ := field
    rw [List.map_cons, annotateField, List.lookup_cons, List.lookup_cons]
    cases same : key == name with
    | false => exact ih
    | true =>
      rw [beq_iff_eq] at same
      subst same
      cases enters key <;> rfl

/-- A property is written without its key after commenting as before. -/
theorem isShorthand_annotate (marker : Text) (nested : Bool) (t : Tree) :
    (t.annotate marker nested).1.isShorthand = t.isShorthand := by
  rw [← isShorthand_bare, bare_annotate, isShorthand_bare]

/-- The walk goes into the value of a property. -/
theorem get_value_annotate {t : Tree} (marker : Text) (nested : Bool) (property : t.isShorthand) :
    (t.annotate marker nested).1.get "value" = ((t.get "value").annotate marker true).1 := by
  -- The value of a property is entered whether or not its key is computed.
  cases t with
  | node kind mark fields =>
    have known : kind = some "Property" := by
      rw [isShorthand, Bool.and_eq_true] at property
      exact beq_iff_eq.mp property.1
    subst known
    rw [get_annotate mark fields marker nested (by decide)]
    cases computedIn fields <;> rfl
  | _ => cases property

/-- A node the walk meets is a part of the tree. -/
theorem mem_parts_of_visit {nested : Bool} {t : Tree} {v : Visit} (met : v ∈ visits nested t) :
    v.node ∈ t.parts := by
  -- The walk goes to elements of lists and into fields that hold no notes.
  induction t using Tree.induction generalizing nested with
  | list items ih =>
    obtain ⟨item, held, inside⟩ := mem_visits_list.mp met
    exact (parts_sublist_of_item held).subset (ih item held inside)
  | node kind mark fields ih =>
    rcases mem_visits_node.mp met with rfl | ⟨_, field, held, entered, inside⟩
    · exact mem_parts_self rfl
    · exact (parts_sublist_of_field held (noteless_of_enters entered)).subset
        (ih field held inside)
  | _ => cases met

/-- No comment is concealed if and only if the walk finds no call in the value of a property written
without its key. -/
theorem revealed_annotate {marker : Text} {nested : Bool} {t : Tree} (fresh : t.marked = []) :
    (t.annotate marker nested).1.Revealed ↔
      ∀ v ∈ visits nested t, v.node.isShorthand → (v.node.get "value").loaders true = [] := by
  -- A comment lies in a value exactly if the walk finds a call there.
  have value {u : Tree} (clear : u.marked = []) : (u.get "value").marked = [] :=
    List.sublist_nil.mp (clear ▸ marked_sublist (parts_get_sublist u rfl))
  constructor
  · intro revealed v met shorthand
    have clear := value (marked_of_mem fresh (mem_parts_of_visit met))
    have shown := revealed _ (annotate_mem_parts met) (by rwa [isShorthand_annotate])
    rwa [get_value_annotate marker v.nested shorthand, marked_annotate_eq_nil clear] at shown
  · intro quiet part member shorthand
    rcases mem_parts_annotate fresh member with
      clear | ⟨kind, mark, fields, deep, met, _, clear, rfl⟩
    · exact value clear
    · rw [isShorthand_annotate] at shorthand
      rw [get_value_annotate marker deep shorthand, marked_annotate_eq_nil (value clear)]
      exact quiet _ met shorthand

end ModuleLift.Tree
