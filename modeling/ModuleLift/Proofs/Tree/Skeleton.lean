import ModuleLift.Proofs.Tree.Bare

/-! Trees without marks: all that tells which names a program binds. -/

namespace ModuleLift.Tree

mutual

/-- The value without marks, at every depth. A value without kind and fields keeps its mark, which
is all that can make it count as set. -/
def skeleton : Tree → Tree
  | .list items => .list (skeletonAll items)
  | .node kind mark fields =>
    .node kind (if kind.isSome || !fields.isEmpty then {} else mark) (skeletonFields fields)
  | other => other

/-- The elements of a list without marks. -/
def skeletonAll : List Tree → List Tree
  | [] => []
  | t :: rest => skeleton t :: skeletonAll rest

/-- The fields of a node without marks in their values. -/
def skeletonFields : List (String × Tree) → List (String × Tree)
  | [] => []
  | (key, value) :: rest => (key, skeleton value) :: skeletonFields rest

end

/-- A field without marks in its value. -/
def skeletonField (field : String × Tree) : String × Tree := (field.1, field.2.skeleton)

/-- The skeletons of elements are taken one by one. -/
theorem skeletonAll_eq (items : List Tree) : skeletonAll items = items.map skeleton := by
  -- Induction over the elements.
  induction items with
  | nil => rfl
  | cons t rest ih => rw [skeletonAll, List.map_cons, ih]

/-- The skeletons of fields are taken one by one. -/
theorem skeletonFields_eq (fields : List (String × Tree)) :
    skeletonFields fields = fields.map skeletonField := by
  -- Induction over the fields.
  induction fields with
  | nil => rfl
  | cons field rest ih => rw [skeletonFields, List.map_cons, ih, skeletonField]

/-- The skeleton of a list is made of those of its elements. -/
@[simp] theorem skeleton_list (items : List Tree) :
    (list items).skeleton = list (items.map skeleton) := by
  rw [skeleton, skeletonAll_eq]

/-- The skeleton of a node has no mark, unless the node has nothing else. -/
theorem skeleton_node (kind : Option String) (mark : Mark) (fields : List (String × Tree)) :
    (node kind mark fields).skeleton =
      node kind (if kind.isSome || !fields.isEmpty then {} else mark)
        (fields.map skeletonField) := by
  rw [skeleton, skeletonFields_eq]

/-- A skeleton is of the same kind. -/
@[simp] theorem kind?_skeleton (t : Tree) : t.skeleton.kind? = t.kind? := by
  cases t <;> simp [skeleton, kind?]

/-- The fields of a skeleton are skeletons. -/
@[simp] theorem fields_skeleton (t : Tree) : t.skeleton.fields = t.fields.map skeletonField := by
  -- Only nodes have fields.
  cases t with
  | node kind mark fields => rw [skeleton_node]; rfl
  | _ => simp [skeleton, fields]

@[simp] theorem isA_skeleton (t : Tree) (kind : String) : t.skeleton.isA kind = t.isA kind := by
  simp [isA]

@[simp] theorem isIdentifier_skeleton (t : Tree) : t.skeleton.isIdentifier = t.isIdentifier := by
  simp [isIdentifier]

/-- The elements of a skeleton are skeletons. -/
@[simp] theorem items_skeleton (t : Tree) : t.skeleton.items = t.items.map skeleton := by
  cases t <;> simp [skeleton, skeletonAll_eq, items]

@[simp] theorem text?_skeleton (t : Tree) : t.skeleton.text? = t.text? := by
  cases t <;> simp [skeleton, text?]

@[simp] theorem isNode_skeleton (t : Tree) : t.skeleton.isNode = t.isNode := by
  cases t <;> simp [skeleton, isNode]

/-- A field is looked up in the skeleton as in the tree. -/
@[simp] theorem get_skeleton (t : Tree) (key : String) :
    t.skeleton.get key = (t.get key).skeleton := by
  -- Names are untouched, so both look-ups stop at the same field.
  rw [get, get, fields_skeleton]
  induction t.fields with
  | nil => rfl
  | cons field rest ih =>
    obtain ⟨name, value⟩ := field
    rw [List.map_cons, skeletonField, List.lookup_cons, List.lookup_cons]
    cases key == name with
    | true => rfl
    | false => exact ih

@[simp] theorem name_skeleton (t : Tree) : t.skeleton.name = t.name := by
  simp [name, textD]

@[simp] theorem isNull_skeleton (t : Tree) : t.skeleton.isNull = t.isNull := by
  cases t <;> simp [skeleton, isNull]

@[simp] theorem isText_skeleton (t : Tree) (value : Text) :
    t.skeleton.isText value = t.isText value := by
  simp [isText]

@[simp] theorem isNamed_skeleton (t : Tree) (name : Text) :
    t.skeleton.isNamed name = t.isNamed name := by
  simp [isNamed]

@[simp] theorem stringValue?_skeleton (t : Tree) : t.skeleton.stringValue? = t.stringValue? := by
  simp [stringValue?]

/-- Whether a value counts as set is told by the skeleton. -/
@[simp] theorem isSet_skeleton (t : Tree) : t.skeleton.isSet = t.isSet := by
  cases t with
  | node kind mark fields =>
    -- With a kind or a field a node is set, and without both it keeps its mark.
    rw [skeleton_node, isSet, isSet]
    cases kind <;> cases fields <;> simp
  | list items => simp [isSet]
  | _ => rfl

/-- The skeleton of a node of some kind does not depend on its mark. -/
theorem skeleton_mapMark {t : Tree} (kind : t.kind?.isSome) (change : Mark → Mark) :
    (t.mapMark change).skeleton = t.skeleton := by
  -- A node with a kind loses its mark in the skeleton.
  cases t with
  | node name mark fields =>
    have named : name.isSome := kind
    simp [mapMark, skeleton_node, named]
  | _ => rfl

/-- Commenting buried calls leaves the skeleton as it is. -/
theorem skeleton_annotate (marker : Text) (nested : Bool) (t : Tree) :
    (t.annotate marker nested).1.skeleton = t.skeleton := by
  -- Induction on the tree: commenting touches marks, and a value without fields gains no flag.
  induction t using Tree.induction generalizing nested with
  | null => rfl
  | flag value => rfl
  | number value => rfl
  | text value => rfl
  | list items ih =>
    rw [annotate, skeleton_list, skeleton_list, annotateAll_fst, List.map_map]
    exact congrArg _ (List.map_congr_left fun t held => ih t held nested)
  | node kind mark fields ih =>
    rw [annotate]
    split
    · rfl
    · have below (nested : Bool) (enters : String → Bool) :
          (fields.map (annotateField marker nested enters)).map skeletonField =
            fields.map skeletonField := by
        rw [List.map_map]
        refine List.map_congr_left fun field held => ?_
        rw [Function.comp_apply, annotateField, skeletonField, skeletonField]
        split
        · rw [ih field held]
        · rfl
      rw [skeleton_node, skeleton_node, annotateFields_fst, below]
      congr 1
      cases kind with
      | some name => rfl
      | none =>
        cases fields with
        | cons field rest => rfl
        -- Without kind and fields there is neither a call here nor a comment below.
        | nil => simp [annotateFields, holdsLoader, isA, kind?]

end ModuleLift.Tree
