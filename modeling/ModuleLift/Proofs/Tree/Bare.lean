import Mathlib.Data.List.Basic
import ModuleLift.Buried
import ModuleLift.Proofs.Emission.Insertion

/-! Trees up to comments and flags, which is all that commenting changes. -/

namespace ModuleLift

/-- The mark without comments and flag. -/
def Mark.bare (mark : Mark) : Mark := { mark with comments := [], modified := false }

/-- Adding a comment changes nothing but the comments. -/
@[simp] theorem Mark.bare_addComment (mark : Mark) (text : Text) :
    (mark.addComment text).bare = mark.bare := by
  -- The comment is put in, or it was there.
  rw [Mark.addComment]
  split <;> rfl

namespace Tree

mutual

/-- The value without comments and flags, at every depth. -/
def bare : Tree → Tree
  | .list items => .list (bareAll items)
  | .node kind mark fields => .node kind mark.bare (bareFields fields)
  | other => other

/-- The elements of a list without comments and flags. -/
def bareAll : List Tree → List Tree
  | [] => []
  | t :: rest => bare t :: bareAll rest

/-- The fields of a node without comments and flags. -/
def bareFields : List (String × Tree) → List (String × Tree)
  | [] => []
  | (key, value) :: rest => (key, bare value) :: bareFields rest

end

/-- A field without comments and flags in its value. -/
def bareField (field : String × Tree) : String × Tree := (field.1, field.2.bare)

/-- Elements are bared one by one. -/
theorem bareAll_eq (items : List Tree) : bareAll items = items.map bare := by
  -- Induction over the elements.
  induction items with
  | nil => rfl
  | cons t rest ih => rw [bareAll, List.map_cons, ih]

/-- Fields are bared one by one. -/
theorem bareFields_eq (fields : List (String × Tree)) :
    bareFields fields = fields.map bareField := by
  -- Induction over the fields.
  induction fields with
  | nil => rfl
  | cons field rest ih => rw [bareFields, List.map_cons, ih, bareField]

/-- A bare list has bare elements. -/
@[simp] theorem bare_list (items : List Tree) : (list items).bare = list (items.map bare) := by
  rw [bare, bareAll_eq]

/-- A bare node has a bare mark and bare fields. -/
@[simp] theorem bare_node (kind : Option String) (mark : Mark) (fields : List (String × Tree)) :
    (node kind mark fields).bare = node kind mark.bare (fields.map bareField) := by
  rw [bare, bareFields_eq]

@[simp] theorem bare_null : null.bare = null := rfl
@[simp] theorem bare_flag (value : Bool) : (flag value).bare = flag value := rfl
@[simp] theorem bare_number (value : Numeral) : (number value).bare = number value := rfl
@[simp] theorem bare_text (value : Text) : (text value).bare = text value := rfl

/-- A bare tree is of the same kind. -/
@[simp] theorem kind?_bare (t : Tree) : t.bare.kind? = t.kind? := by
  cases t <;> simp [kind?]

/-- The mark of a bare tree has no comments. -/
@[simp] theorem mark_bare (t : Tree) : t.bare.mark = t.mark.bare := by
  cases t <;> simp [mark] <;> rfl

/-- A bare tree was read from the same range. -/
@[simp] theorem range?_bare (t : Tree) : t.bare.range? = t.range? := by
  simp [range?, Mark.bare]

/-- A bare tree stands at the same place. -/
@[simp] theorem region?_bare (t : Tree) : t.bare.region? = t.region? := by
  simp [region?, Mark.bare]

/-- The fields of a bare tree are bare. -/
@[simp] theorem fields_bare (t : Tree) : t.bare.fields = t.fields.map bareField := by
  cases t <;> simp [fields]

/-- A field is looked up in the bare tree as in the tree. -/
@[simp] theorem get_bare (t : Tree) (key : String) : t.bare.get key = (t.get key).bare := by
  -- Names are untouched, so both look-ups stop at the same field.
  rw [get, get, fields_bare]
  induction t.fields with
  | nil => rfl
  | cons field rest ih =>
    obtain ⟨name, value⟩ := field
    rw [List.map_cons, bareField, List.lookup_cons, List.lookup_cons]
    cases key == name with
    | true => rfl
    | false => exact ih

/-- The elements of a bare tree are bare. -/
@[simp] theorem items_bare (t : Tree) : t.bare.items = t.items.map bare := by
  cases t <;> simp [items]

@[simp] theorem isA_bare (t : Tree) (kind : String) : t.bare.isA kind = t.isA kind := by
  simp [isA]

@[simp] theorem text?_bare (t : Tree) : t.bare.text? = t.text? := by
  cases t <;> simp [text?]

@[simp] theorem isIdentifier_bare (t : Tree) : t.bare.isIdentifier = t.isIdentifier := by
  simp [isIdentifier]

@[simp] theorem name_bare (t : Tree) : t.bare.name = t.name := by
  simp [name, textD]

@[simp] theorem isNull_bare (t : Tree) : t.bare.isNull = t.isNull := by
  cases t <;> simp [isNull]

@[simp] theorem isNamed_bare (t : Tree) (name : Text) : t.bare.isNamed name = t.isNamed name := by
  simp [isNamed, isIdentifier, isText]

@[simp] theorem stringValue?_bare (t : Tree) : t.bare.stringValue? = t.stringValue? := by
  simp [stringValue?]

/-- The parts of the bare tree are the bare parts. -/
theorem parts_bare (t : Tree) : t.bare.parts = t.parts.map bare := by
  -- Notes are passed over on both sides, and all other values are entered on both.
  induction t using Tree.induction with
  | null => rfl
  | flag value => rfl
  | number value => rfl
  | text value => rfl
  | list items ih =>
    rw [bare_list, parts_list, parts_list, List.flatMap_map, List.map_flatMap]
    exact List.flatMap_congr ih
  | node kind mark fields ih =>
    have below : ∀ field ∈ fields, fieldParts (bareField field) = (fieldParts field).map bare := by
      intro field held
      rw [fieldParts, fieldParts, bareField]
      split
      · rfl
      · exact ih field held
    rw [bare_node, parts_node, parts_node, List.map_cons, bare_node, List.flatMap_map,
      List.map_flatMap]
    exact congrArg _ (List.flatMap_congr below)

/-- What the bare tree tells is true of all parts of a tree if it is of all parts of one that
differs in comments and flags only. -/
theorem forall_parts_of_bare_eq {holds : Tree → Prop} (told : ∀ t : Tree, holds t ↔ holds t.bare)
    {t u : Tree} (same : u.bare = t.bare) (all : ∀ part ∈ t.parts, holds part) :
    ∀ part ∈ u.parts, holds part := by
  -- Each part has a counterpart in the other tree that differs in comments and flags only.
  intro part member
  have found : part.bare ∈ t.parts.map bare := by
    rw [← parts_bare, ← same, parts_bare]
    exact List.mem_map_of_mem member
  obtain ⟨other, held, equal⟩ := List.mem_map.mp found
  rw [told, ← equal, ← told]
  exact all other held

/-- A comment before a node leaves the bare tree as it is. -/
@[simp] theorem bare_comment (t : Tree) (text : Text) : (t.comment text).bare = t.bare := by
  cases t <;> simp [comment, mapMark]

/-- A field as commenting leaves it: with comments in its value, if the walk enters it. -/
def annotateField (marker : Text) (nested : Bool) (enters : String → Bool)
    (field : String × Tree) : String × Tree :=
  (field.1, if enters field.1 then (field.2.annotate marker nested).1 else field.2)

/-- Elements are commented one by one. -/
theorem annotateAll_fst (marker : Text) (nested : Bool) (items : List Tree) :
    (annotateAll marker nested items).1 = items.map fun t => (t.annotate marker nested).1 := by
  -- Induction over the elements.
  induction items with
  | nil => rfl
  | cons t rest ih => rw [annotateAll, List.map_cons, ← ih]

/-- Fields are commented one by one, those that the walk does not enter left out. -/
theorem annotateFields_fst (marker : Text) (nested : Bool) (enters : String → Bool)
    (fields : List (String × Tree)) :
    (annotateFields marker nested enters fields).1 =
      fields.map (annotateField marker nested enters) := by
  -- Induction over the fields.
  induction fields with
  | nil => rfl
  | cons field rest ih =>
    rw [annotateFields, List.map_cons, ← ih, annotateField]
    cases enters field.1 <;> rfl

/-- Commenting buried calls leaves the bare tree as it is. -/
theorem bare_annotate (marker : Text) (nested : Bool) (t : Tree) :
    (t.annotate marker nested).1.bare = t.bare := by
  -- Induction on the tree: commenting touches marks, and of these only what is left out here.
  induction t using Tree.induction generalizing nested with
  | null => rfl
  | flag value => rfl
  | number value => rfl
  | text value => rfl
  | list items ih =>
    rw [annotate, bare_list, bare_list, annotateAll_fst, List.map_map]
    exact congrArg _ (List.map_congr_left fun t held => ih t held nested)
  | node kind mark fields ih =>
    rw [annotate]
    split
    · rfl
    · have below (nested : Bool) (enters : String → Bool) :
          (fields.map (annotateField marker nested enters)).map bareField =
            fields.map bareField := by
        rw [List.map_map]
        refine List.map_congr_left fun field held => ?_
        rw [Function.comp_apply, annotateField, bareField, bareField]
        split
        · rw [ih field held]
        · rfl
      rw [bare_node, bare_node, annotateFields_fst, below]
      congr 1
      -- Whether it is this node that gains a comment makes no difference to the rest of its mark.
      split
      · exact Mark.bare_addComment mark marker
      · rfl

/-- Commenting buried calls leaves a node where it was read. -/
@[simp] theorem range?_annotate (marker : Text) (nested : Bool) (t : Tree) :
    (t.annotate marker nested).1.range? = t.range? := by
  rw [← range?_bare, bare_annotate, range?_bare]

/-- Commenting buried calls leaves a statement the text it stands for. -/
@[simp] theorem region?_annotate (marker : Text) (nested : Bool) (t : Tree) :
    (t.annotate marker nested).1.region? = t.region? := by
  rw [← region?_bare, bare_annotate, region?_bare]

/-- A comment does not move a statement. -/
theorem region?_comment (t : Tree) (text : Text) : (t.comment text).region? = t.region? := by
  rw [← region?_bare, bare_comment, region?_bare]

/-- A node stands where it is anchored. -/
theorem region?_anchor {t : Tree} (isNode : t.isNode) (region : Region) :
    (t.anchor region).region? = some region := by
  -- Only nodes have a mark.
  cases t with
  | node => rfl
  | _ => cases isNode

/-- The nodes read that a bare field holds. -/
theorem rangedIn_bareField (field : String × Tree) :
    Emission.rangedIn (bareField field) =
      (Emission.rangedIn field).map fun child => (child.1, child.2.bare) := by
  -- Whether a value was read is told by its range, which stays.
  have ranged (t : Tree) : Emission.ranged? t.bare =
      (Emission.ranged? t).map fun child => (child.1, child.2.bare) := by
    rw [Emission.ranged?, Emission.ranged?, range?_bare, Option.map_map]
    rfl
  obtain ⟨key, value⟩ := field
  rw [Emission.rangedIn, Emission.rangedIn, bareField]
  split
  · rfl
  · cases value with
    | list items =>
      simp only [bare_list, List.filterMap_map, List.map_filterMap]
      exact List.filterMap_congr fun item _ => ranged item
    | node kind mark fields =>
      have known := ranged (node kind mark fields)
      rw [bare_node] at known ⊢
      simp only [known]
      cases Emission.ranged? (node kind mark fields) <;> rfl
    | _ => rfl

/-- The nodes read directly below a bare node are those below the node. -/
theorem children_bare (t : Tree) :
    t.bare.fields.flatMap Emission.rangedIn =
      (t.fields.flatMap Emission.rangedIn).map fun child => (child.1, child.2.bare) := by
  -- Field by field.
  rw [fields_bare, List.flatMap_map, List.map_flatMap]
  exact List.flatMap_congr fun field _ => rangedIn_bareField field

/-- Whether a node encloses those below it is told by the bare tree. -/
theorem encloses_bare (t : Tree) : t.Encloses ↔ t.bare.Encloses := by
  -- Ranges are what it asks for.
  rw [Encloses, Encloses, children_bare, List.forall_mem_map]
  simp [readRegion]

end Tree

end ModuleLift
