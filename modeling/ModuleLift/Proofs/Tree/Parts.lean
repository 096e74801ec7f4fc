import ModuleLift.Tree.Walk

/-! The nodes a tree is made of, and induction over trees through fields and lists. -/

namespace ModuleLift.Tree

open scoped List

/-- A property holds of all trees if lists inherit it from their elements and nodes from their
fields. -/
@[elab_as_elim]
theorem induction {motive : Tree → Prop}
    (null : motive .null) (flag : ∀ value, motive (.flag value))
    (number : ∀ value, motive (.number value)) (text : ∀ value, motive (.text value))
    (list : ∀ items, (∀ t ∈ items, motive t) → motive (.list items))
    (node : ∀ kind mark fields, (∀ field ∈ fields, motive field.2) →
      motive (.node kind mark fields)) (t : Tree) : motive t := by
  -- Elements and field values are smaller than the tree that holds them.
  match t with
  | .null => exact null
  | .flag value => exact flag value
  | .number value => exact number value
  | .text value => exact text value
  | .list items =>
    refine list items fun t member => ?_
    exact Tree.induction null flag number text list node t
  | .node kind mark fields =>
    refine node kind mark fields fun field member => ?_
    exact Tree.induction null flag number text list node field.2
termination_by sizeOf t
decreasing_by
  · have smaller := List.sizeOf_lt_of_mem member
    simp only [Tree.list.sizeOf_spec]
    omega
  · have smaller := List.sizeOf_lt_of_mem member
    obtain ⟨key, value⟩ := field
    simp only [Prod.mk.sizeOf_spec] at smaller
    simp only [Tree.node.sizeOf_spec]
    omega

mutual

/-- The nodes a value is made of, outer ones first. Notes are no part of it. -/
def parts : Tree → List Tree
  | .list items => partsAll items
  | .node kind mark fields => .node kind mark fields :: partsFields fields
  | _ => []

/-- The nodes the elements of a list are made of. -/
def partsAll : List Tree → List Tree
  | [] => []
  | t :: rest => parts t ++ partsAll rest

/-- The nodes the fields of a node are made of. -/
def partsFields : List (String × Tree) → List Tree
  | [] => []
  | (key, value) :: rest => (if isNoteKey key then [] else parts value) ++ partsFields rest

end

/-- The parts of a list are those of its elements, one after the other. -/
theorem partsAll_eq (items : List Tree) : partsAll items = items.flatMap parts := by
  -- Induction over the elements.
  induction items with
  | nil => rfl
  | cons t rest ih => rw [partsAll, List.flatMap_cons, ih]

/-- The parts that come from one field. -/
def fieldParts (field : String × Tree) : List Tree :=
  if isNoteKey field.1 then [] else parts field.2

/-- The parts of some fields are those of each field, one after the other. -/
theorem partsFields_eq (fields : List (String × Tree)) :
    partsFields fields = fields.flatMap fieldParts := by
  -- Induction over the fields.
  induction fields with
  | nil => rfl
  | cons field rest ih =>
    obtain ⟨key, value⟩ := field
    rw [partsFields, List.flatMap_cons, ih, fieldParts]

/-- The parts of a list value. -/
@[simp] theorem parts_list (items : List Tree) : (list items).parts = items.flatMap parts := by
  rw [parts, partsAll_eq]

/-- The parts of a node. -/
@[simp] theorem parts_node (kind : Option String) (mark : Mark) (fields : List (String × Tree)) :
    (node kind mark fields).parts = node kind mark fields :: fields.flatMap fieldParts := by
  rw [parts, partsFields_eq]

@[simp] theorem parts_null : null.parts = [] := rfl
@[simp] theorem parts_flag (value : Bool) : (flag value).parts = [] := rfl
@[simp] theorem parts_number (value : Numeral) : (number value).parts = [] := rfl
@[simp] theorem parts_text (value : Text) : (text value).parts = [] := rfl

/-- A node is one of its own parts. -/
theorem mem_parts_self {t : Tree} (isNode : t.isNode) : t ∈ t.parts := by
  -- Only nodes are parts.
  cases t with
  | node kind mark fields => simp
  | _ => simp [Tree.isNode] at isNode

/-- A value of some kind is one of its own parts. -/
theorem mem_parts_of_kind {t : Tree} (kind : t.kind?.isSome) : t ∈ t.parts := by
  -- Only nodes have a kind.
  cases t with
  | node kind mark fields => exact mem_parts_self rfl
  | _ => simp [kind?] at kind

/-- A node of a given kind has a kind. -/
theorem kind_of_isA {t : Tree} {kind : String} (isA : t.isA kind) : t.kind?.isSome := by
  -- It is the one asked for.
  simp only [Tree.isA, beq_iff_eq] at isA
  simp [isA]

/-- A node has one kind. -/
theorem isA_eq_false {t : Tree} {kind other : String} (isA : t.isA kind) (differs : kind ≠ other) :
    t.isA other = false := by
  -- The test compares with the one kind it has.
  rw [Tree.isA, beq_iff_eq.mp isA]
  simpa using differs

/-- The parts of what a field holds are among those of the node, in the same order. -/
theorem parts_sublist_of_field {kind : Option String} {mark : Mark}
    {fields : List (String × Tree)} {field : String × Tree} (held : field ∈ fields)
    (entered : isNoteKey field.1 = false) : field.2.parts <+ (node kind mark fields).parts := by
  -- The parts of the fields follow one another, and those of this field are a run of them.
  rw [parts_node]
  have here : fieldParts field = field.2.parts := by simp [fieldParts, entered]
  rw [← here]
  exact (List.sublist_flatten_of_mem (List.mem_map_of_mem held)).trans (List.sublist_cons_self ..)

/-- The parts of an element are among those of the list, in the same order. -/
theorem parts_sublist_of_item {items : List Tree} {item : Tree} (held : item ∈ items) :
    item.parts <+ (list items).parts := by
  -- The parts of the list are those of all elements in a row.
  rw [parts_list]
  exact List.sublist_flatten_of_mem (List.mem_map_of_mem held)

/-- The parts of an element are among those of the value it is an element of. -/
theorem parts_sublist_of_mem_items {t item : Tree} (held : item ∈ t.items) :
    item.parts <+ t.parts := by
  -- Only a list has elements.
  cases t with
  | list items => exact parts_sublist_of_item held
  | _ => cases held

/-- The parts of a part are among those of the whole, in the same order. -/
theorem parts_sublist {whole part : Tree} (member : part ∈ whole.parts) :
    part.parts <+ whole.parts := by
  -- Induction on the whole, down to the part through lists and fields.
  induction whole using Tree.induction with
  | null => simp at member
  | flag value => simp at member
  | number value => simp at member
  | text value => simp at member
  | list items ih =>
    rw [parts_list] at member
    obtain ⟨item, held, inside⟩ := List.mem_flatMap.mp member
    exact (ih item held inside).trans (parts_sublist_of_item held)
  | node kind mark fields ih =>
    rw [parts_node] at member
    -- The part is the node itself, or it comes from one of the fields.
    rcases List.mem_cons.mp member with rfl | below
    · exact List.Sublist.refl _
    · obtain ⟨field, held, inside⟩ := List.mem_flatMap.mp below
      rw [fieldParts] at inside
      split at inside
      · simp at inside
      · rename_i entered
        exact (ih field held inside).trans (parts_sublist_of_field held (by simpa using entered))

/-- What a field that is looked up holds is one of the fields' values. -/
theorem mem_of_lookup {fields : List (String × Tree)} {key : String} {value : Tree}
    (found : fields.lookup key = some value) : (key, value) ∈ fields := by
  -- The first field with the name is the one that is found.
  induction fields with
  | nil => simp at found
  | cons field rest ih =>
    obtain ⟨name, held⟩ := field
    rw [List.lookup_cons] at found
    split at found
    · rename_i same
      cases found
      simp [beq_iff_eq.mp same]
    · exact List.mem_cons_of_mem _ (ih found)

/-- What is looked up in a node is null or stands in one of its fields. -/
theorem get_eq_null_or_mem (t : Tree) (key : String) :
    t.get key = .null ∨ (key, t.get key) ∈ t.fields := by
  -- The first field of that name, if there is one.
  rw [get]
  cases found : t.fields.lookup key with
  | none => exact .inl rfl
  | some value => exact .inr (mem_of_lookup found)

/-- The parts of what a field holds are among those of the tree, also when the field is absent. -/
theorem parts_get_sublist (t : Tree) {key : String} (entered : isNoteKey key = false) :
    (t.get key).parts <+ t.parts := by
  -- An absent field reads as null, which has no parts.
  cases t with
  | node kind mark fields =>
    simp only [get, Tree.fields]
    cases found : fields.lookup key with
    | none => simp
    | some value => exact parts_sublist_of_field (mem_of_lookup found) entered
  | _ => simp [get, fields]

/-- The parts of the elements of a list in a field are among those of the tree. -/
theorem flatMap_parts_sublist (t : Tree) {key : String} (entered : isNoteKey key = false) :
    (t.get key).items.flatMap parts <+ t.parts := by
  -- A value that is no list has no elements to count.
  refine List.Sublist.trans ?_ (parts_get_sublist t entered)
  cases t.get key with
  | list items => simp [Tree.items]
  | _ => simp [items]

/-- The parts of an element of a list in a field are among those of the tree. -/
theorem parts_sublist_of_mem_get {t item : Tree} {key : String} (entered : isNoteKey key = false)
    (held : item ∈ (t.get key).items) : item.parts <+ t.parts :=
  (parts_sublist_of_mem_items held).trans (parts_get_sublist t entered)

end ModuleLift.Tree
