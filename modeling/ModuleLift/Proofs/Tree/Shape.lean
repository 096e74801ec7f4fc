import ModuleLift.Proofs.Buried

/-! The shape of the trees that programs are read as, as far as finding comments again depends on
it. -/

namespace ModuleLift.Tree

open Emission

open scoped List

/-- What a field holds: the elements of a list, or the one value. -/
def elements : Tree → List Tree
  | .list items => items
  | value => [value]

/-- Whether a value holds no node of a program. -/
def isPlain (t : Tree) : Bool := t.parts.all fun part => part.kind?.isNone && part.range?.isNone

/-- The fields in which nodes of a kind hold others, in the order of the text. Only the kinds that
lifting takes apart matter. -/
def heldIn? (kind : Option String) : Option (List String) :=
  match kind with
  | some "Identifier" => some []
  | some "Literal" => some []
  | some "CallExpression" => some ["callee", "arguments"]
  | some "MemberExpression" => some ["object", "property"]
  | some "AssignmentExpression" => some ["left", "right"]
  | some "ObjectPattern" => some ["properties"]
  | some "Property" => some ["key", "value"]
  | some "VariableDeclarator" => some ["id", "init"]
  | some "VariableDeclaration" => some ["declarations"]
  | some "ExpressionStatement" => some ["expression"]
  -- Other nodes are kept whole, so what they hold does not matter.
  | _ => none

/-- Whether a value is a list, or there is none. -/
def isSeries : Tree → Bool
  | .list _ => true
  | .null => true
  | _ => false

/-- The names of the fields that hold nodes. -/
def heldNames (t : Tree) : List String :=
  (t.fields.filter fun field => !isNoteKey field.1 && !field.2.isPlain).map (·.1)

/-- Whether two nodes read below one do not overlap, unless the one that starts later is a name. -/
def Apart (first second : Region × Tree) : Prop :=
  (first.1.start ≤ second.1.start → first.1.stop ≤ second.1.start ∨ second.2.isIdentifier) ∧
    (second.1.start ≤ first.1.start → second.1.stop ≤ first.1.start ∨ first.2.isIdentifier)

instance (first second : Region × Tree) : Decidable (Apart first second) := by
  unfold Apart
  infer_instance

/-- A node as it is read. It is known where; its fields have different names and hold nodes, or
lists of them where there can be several; what is declared are declarators, and what is passed on
are nodes; and all these lie in the node and do not overlap, names apart. In a property written
without its key the key is a name, and the value starts where it does. -/
structure Shaped (t : Tree) : Prop where
  read : t.range?.isSome
  encloses : t.Encloses
  names : (t.fields.map (·.1)).Nodup
  -- Only kinds that lifting takes apart are in the table; of the others nothing is asked here.
  held : ∀ keys ∈ heldIn? t.kind?, t.heldNames <+ keys
  series : ∀ key ∈ ["declarations", "arguments", "properties"], (t.get key).isSeries
  declared : ∀ d ∈ (t.get "declarations").items, d.isA "VariableDeclarator"
  given : ∀ argument ∈ (t.get "arguments").items, argument.kind?.isSome
  -- A value without a kind that still holds nodes would be passed over when the node is written.
  direct : ∀ field ∈ t.fields, isNoteKey field.1 = false →
    ∀ item ∈ field.2.elements, item.kind?.isSome ∨ item.isPlain
  spaced : t.isShorthand = false → (t.fields.flatMap rangedIn).Pairwise Apart
  -- The name is not empty, so the value starts before the name ends.
  shared : t.isShorthand → (t.get "key").isIdentifier ∧ (t.get "value").kind?.isSome ∧
    (t.get "key").readRegion.start < (t.get "key").readRegion.stop ∧
    (t.get "value").readRegion.start = (t.get "key").readRegion.start

instance (t : Tree) : Decidable t.Shaped :=
  decidable_of_iff
    (t.range?.isSome ∧ t.Encloses ∧ (t.fields.map (·.1)).Nodup ∧
      (∀ keys ∈ heldIn? t.kind?, t.heldNames <+ keys) ∧
      (∀ key ∈ ["declarations", "arguments", "properties"], (t.get key).isSeries) ∧
      (∀ d ∈ (t.get "declarations").items, d.isA "VariableDeclarator") ∧
      (∀ argument ∈ (t.get "arguments").items, argument.kind?.isSome) ∧
      (∀ field ∈ t.fields, isNoteKey field.1 = false →
        ∀ item ∈ field.2.elements, item.kind?.isSome ∨ item.isPlain) ∧
      (t.isShorthand = false → (t.fields.flatMap rangedIn).Pairwise Apart) ∧
      (t.isShorthand → (t.get "key").isIdentifier ∧ (t.get "value").kind?.isSome ∧
        (t.get "key").readRegion.start < (t.get "key").readRegion.stop ∧
        (t.get "value").readRegion.start = (t.get "key").readRegion.start))
    ⟨fun ⟨read, encloses, names, held, series, declared, given, direct, spaced, shared⟩ =>
        ⟨read, encloses, names, held, series, declared, given, direct, spaced, shared⟩,
      fun ⟨read, encloses, names, held, series, declared, given, direct, spaced, shared⟩ =>
        ⟨read, encloses, names, held, series, declared, given, direct, spaced, shared⟩⟩

section Bare

/-- The elements of a bare tree are bare. -/
@[simp] theorem elements_bare (t : Tree) : t.bare.elements = t.elements.map bare := by
  cases t <;> simp [elements]

/-- Whether a value is without nodes is told by the bare tree. -/
@[simp] theorem isPlain_bare (t : Tree) : t.bare.isPlain = t.isPlain := by
  simp [isPlain, parts_bare, Function.comp_def]

/-- Whether a value is a list or missing is told by the bare tree. -/
@[simp] theorem isSeries_bare (t : Tree) : t.bare.isSeries = t.isSeries := by
  cases t <;> simp [isSeries]

/-- The names of the fields that hold nodes are told by the bare tree. -/
@[simp] theorem heldNames_bare (t : Tree) : t.bare.heldNames = t.heldNames := by
  -- A field keeps its name, and is plain if it was.
  have same : (fun field : String × Tree => !isNoteKey field.1 && !field.2.isPlain) ∘ bareField =
      fun field => !isNoteKey field.1 && !field.2.isPlain := by
    funext field
    simp [bareField]
  rw [heldNames, fields_bare, List.filter_map, same, List.map_map]
  rfl

/-- Whether a node is as it is read is told by the bare tree. -/
theorem shaped_bare (t : Tree) : t.Shaped ↔ t.bare.Shaped := by
  -- All clauses read names, kinds and ranges, and commenting changes none of these.
  have names : t.bare.fields.map (·.1) = t.fields.map (·.1) := by
    rw [fields_bare, List.map_map]
    rfl
  have direct : (∀ field ∈ t.bare.fields, isNoteKey field.1 = false →
        ∀ item ∈ field.2.elements, item.kind?.isSome ∨ item.isPlain) ↔
      ∀ field ∈ t.fields, isNoteKey field.1 = false →
        ∀ item ∈ field.2.elements, item.kind?.isSome ∨ item.isPlain := by
    rw [fields_bare, List.forall_mem_map]
    simp [bareField]
  have spaced : (t.bare.fields.flatMap rangedIn).Pairwise Apart ↔
      (t.fields.flatMap rangedIn).Pairwise Apart := by
    have apart (first second : Region × Tree) :
        Apart (first.1, first.2.bare) (second.1, second.2.bare) ↔ Apart first second := by
      simp [Apart, isIdentifier]
    rw [children_bare, List.pairwise_map]
    simp only [apart]
  have shared : t.bare.isShorthand = t.isShorthand := isShorthand_bare t
  -- With each clause told by the bare tree, so is the shape.
  constructor
  · rintro ⟨read, encloses, distinct, held, several, declared, given, each, apart, starts⟩
    refine ⟨by simpa using read, (encloses_bare t).mp encloses, by rwa [names],
      by simpa using held, by simpa using several, by simpa using declared,
      by simpa using given, direct.mpr each, ?_, ?_⟩
    · rw [shared, spaced]
      exact apart
    · simpa [shared, isIdentifier, isA, readRegion] using starts
  · rintro ⟨read, encloses, distinct, held, several, declared, given, each, apart, starts⟩
    refine ⟨by simpa using read, (encloses_bare t).mpr encloses, by rwa [← names],
      by simpa using held, by simpa using several, by simpa using declared,
      by simpa using given, direct.mp each, ?_, ?_⟩
    · rw [← shared, ← spaced]
      exact apart
    · simpa [shared, isIdentifier, isA, readRegion] using starts

end Bare

/-- Whether a node of some kind is as it is read is told by the bare tree. -/
theorem kindedShaped_bare (t : Tree) :
    (t.kind?.isSome → t.Shaped) ↔ (t.bare.kind?.isSome → t.bare.Shaped) := by
  rw [← shaped_bare, kind?_bare]

/-- In the order of the text, a node that overlaps an earlier one is a name. -/
theorem Shaped.spaced_sorted {t : Tree} (shaped : t.Shaped) (other : t.isShorthand = false) :
    (rangedChildren t.fields).Pairwise fun first second =>
      first.1.stop ≤ second.1.start ∨ second.2.isIdentifier := by
  -- Being apart does not depend on the order, so it survives the sorting.
  have symmetric : ∀ {first second : Region × Tree}, Apart first second → Apart second first :=
    fun apart => ⟨apart.2, apart.1⟩
  have apart := ((rangedChildren_perm t.fields).pairwise_iff symmetric).mpr (shaped.spaced other)
  let before (first second : Region × Tree) : Bool := first.1.start ≤ second.1.start
  have sorted : (rangedChildren t.fields).Pairwise fun first second => before first second :=
    List.pairwise_mergeSort (fun _ _ _ => by simp only [before, decide_eq_true_eq]; omega)
      (fun _ _ => by simp only [before, Bool.or_eq_true, decide_eq_true_eq]; omega) _
  exact (sorted.and apart).imp fun ⟨starts, apart⟩ => apart.1 (of_decide_eq_true starts)

/-- Names that give nothing can be left out. -/
theorem flatMap_of_sublist {β : Type} {found keys : List String} {f : String → List β}
    (inside : found <+ keys) (distinct : keys.Nodup)
    (absent : ∀ key ∈ keys, key ∉ found → f key = []) : keys.flatMap f = found.flatMap f := by
  -- Walk along the longer list, in which every name that was dropped gives nothing.
  induction inside with
  | slnil => rfl
  | cons key inside ih =>
    rw [List.nodup_cons] at distinct
    rw [List.flatMap_cons, absent key List.mem_cons_self fun member =>
      distinct.1 (inside.subset member)]
    exact ih distinct.2 fun other member => absent other (List.mem_cons_of_mem _ member)
  | cons_cons key inside ih =>
    rw [List.nodup_cons] at distinct
    rw [List.flatMap_cons, List.flatMap_cons]
    refine congrArg _ (ih distinct.2 fun other member missing =>
      absent other (List.mem_cons_of_mem _ member) fun found => ?_)
    -- The names are different, so the first is not among the others.
    rcases List.mem_cons.mp found with rfl | later
    · exact distinct.1 member
    · exact missing later

/-- The fields that can hold nodes have different names, and none that stands for a note. -/
theorem nodup_of_heldIn {kind : Option String} {keys : List String}
    (known : heldIn? kind = some keys) :
    keys.Nodup ∧ ∀ key ∈ keys, isNoteKey key = false := by
  -- The table has a few rows, so each of them is looked at.
  unfold heldIn? at known
  split at known
  all_goals first | cases known; decide | cases known

/-- With different names each field is found by its own. -/
theorem lookup_of_mem {fields : List (String × Tree)} {field : String × Tree}
    (distinct : (fields.map (·.1)).Nodup) (held : field ∈ fields) :
    fields.lookup field.1 = some field.2 := by
  -- A field before it with the same name would be found instead, but there is none.
  induction fields with
  | nil => simp at held
  | cons first rest ih =>
    rw [List.map_cons, List.nodup_cons] at distinct
    obtain ⟨key, value⟩ := first
    rw [List.lookup_cons]
    rcases List.mem_cons.mp held with rfl | later
    · simp
    · have other : (field.1 == key) = false := by
        rw [beq_eq_false_iff_ne]
        intro same
        exact distinct.1 (same ▸ List.mem_map.mpr ⟨field, later, rfl⟩)
      rw [other]
      exact ih distinct.2 later

/-- Elements that give nothing can be left out. -/
theorem flatMap_filter_of_nil {α β : Type} {items : List α} {keep : α → Bool} {f : α → List β}
    (rest : ∀ item ∈ items, keep item = false → f item = []) :
    items.flatMap f = (items.filter keep).flatMap f := by
  -- An element that is dropped has nothing to give.
  induction items with
  | nil => rfl
  | cons item others ih =>
    rw [List.flatMap_cons, ih fun other member => rest other (List.mem_cons_of_mem _ member),
      List.filter_cons]
    cases kept : keep item with
    | false => rw [rest item List.mem_cons_self kept]; rfl
    | true => rfl

/-- What the fields of a node give, name by name, if those that hold no nodes give nothing. -/
theorem flatMap_fields {β : Type} {t : Tree} {keys : List String} (shaped : t.Shaped)
    (known : heldIn? t.kind? = some keys) {f : String × Tree → List β}
    (plain : ∀ field, field ∈ t.fields ∨ field.2 = null →
      isNoteKey field.1 ∨ field.2.isPlain → f field = []) :
    t.fields.flatMap f = keys.flatMap fun key => f (key, t.get key) := by
  -- Notes and plain values give nothing, so only the fields of the table are left.
  let holds (field : String × Tree) : Bool := !isNoteKey field.1 && !field.2.isPlain
  have others {field : String × Tree} (empty : holds field = false) :
      isNoteKey field.1 ∨ field.2.isPlain := by
    rcases Bool.and_eq_false_iff.mp empty with note | none
    · exact .inl (by simpa using note)
    · exact .inr (by simpa using none)
  rw [flatMap_of_sublist (shaped.held keys known) (nodup_of_heldIn known).1, heldNames,
    List.flatMap_map, @flatMap_filter_of_nil _ _ t.fields holds f fun field held empty =>
      plain field (.inl held) (others empty)]
  · -- A field that holds nodes is what is looked up by its name.
    refine List.flatMap_congr fun field member => ?_
    have found := lookup_of_mem shaped.names (List.mem_filter.mp member).1
    rw [get, found]
    rfl
  · intro key _ missing
    rw [get]
    cases found : t.fields.lookup key with
    | none => exact plain (key, null) (.inr rfl) (.inr rfl)
    | some value =>
      have held := mem_of_lookup found
      refine plain (key, value) (.inl held) (others (Bool.eq_false_iff.mpr fun kept => ?_))
      exact missing (List.mem_map_of_mem (List.mem_filter.mpr ⟨held, kept⟩))

/-- A tree in which all nodes are as they are read, and the flags tell where the comments are. -/
structure Legible (t : Tree) : Prop where
  shaped : ∀ part ∈ t.parts, part.kind?.isSome → part.Shaped
  flagged : ∀ part ∈ t.parts, part.Flagged

/-- What lies in a legible tree is legible. -/
theorem Legible.inside {whole part : Tree} (legible : whole.Legible)
    (inside : part.parts ⊆ whole.parts) : part.Legible :=
  ⟨fun inner member => legible.shaped inner (inside member),
    fun inner member => legible.flagged inner (inside member)⟩

/-- What a field of a legible tree holds is legible. -/
theorem Legible.get {t : Tree} (legible : t.Legible) {key : String}
    (entered : isNoteKey key = false) : (t.get key).Legible :=
  legible.inside (parts_get_sublist t entered).subset

/-- The elements of a list in a legible tree are legible. -/
theorem Legible.item {t item : Tree} (legible : t.Legible) {key : String}
    (entered : isNoteKey key = false) (held : item ∈ (t.get key).items) : item.Legible :=
  legible.inside (parts_sublist_of_mem_get entered held).subset

/-- A node of some kind in a legible tree is as it was read. -/
theorem Legible.self {t : Tree} (legible : t.Legible) (kind : t.kind?.isSome) : t.Shaped :=
  legible.shaped t (mem_parts_of_kind kind) kind

/-- Only nodes of some kind have comments in a legible tree. -/
theorem Legible.kind_of_isCommented {t part : Tree} (legible : t.Legible)
    (member : part ∈ t.parts) (kindless : part.kind? = none) : part.isCommented = false := by
  -- Comments stand before statements, and a statement has a kind.
  cases commented : part.isCommented with
  | false => rfl
  | true =>
    rcases (legible.flagged part member).kinds commented with isA | isA
    all_goals simp [Tree.isA, kindless] at isA

/-- The parts of what a field holds are those of its elements. -/
theorem parts_elements (t : Tree) : t.parts = t.elements.flatMap parts := by
  cases t <;> simp [elements]

/-- The elements of a value without nodes are such values. -/
theorem isPlain_element {value item : Tree} (plain : value.isPlain)
    (member : item ∈ value.elements) : item.isPlain := by
  -- The parts of an element are parts of the value.
  rw [isPlain, List.all_eq_true] at plain ⊢
  intro part found
  refine plain part ?_
  rw [parts_elements]
  exact List.mem_flatMap.mpr ⟨item, member, found⟩

/-- A value without nodes was not read from the text. -/
theorem range_of_isPlain {value : Tree} (plain : value.isPlain) : value.range? = none := by
  -- A node is one of its own parts, and a plain one was not read.
  cases value with
  | node kind mark fields =>
    have self := List.all_eq_true.mp plain _ (mem_parts_self rfl)
    rw [Bool.and_eq_true] at self
    exact Option.isNone_iff_eq_none.mp self.2
  | _ => rfl

/-- The nodes read that a field holds are elements of it. -/
theorem rangedIn_elements {field : String × Tree} (entered : isNoteKey field.1 = false) :
    rangedIn field = field.2.elements.filterMap ranged? := by
  -- A single value and a list with one element are looked at in the same way.
  have one (t : Tree) : (ranged? t).toList = [t].filterMap ranged? := by
    rw [List.filterMap_cons]
    cases ranged? t <;> rfl
  obtain ⟨key, value⟩ := field
  rw [rangedIn, entered, if_neg Bool.false_ne_true]
  cases value with
  | list items => rfl
  | _ => exact one _

section Selecting

variable {t : Tree} {select : Tree → Bool}

/-- The parts of what a field holds are parts of the node. -/
theorem parts_subset_of_field {field : String × Tree} (held : field ∈ t.fields)
    (entered : isNoteKey field.1 = false) : field.2.parts ⊆ t.parts := by
  -- Only nodes have fields.
  cases t with
  | node => exact (parts_sublist_of_field held entered).subset
  | _ => simp [Tree.fields] at held

/-- In a value without nodes of some kind there is nothing to select. -/
theorem filter_parts_plain {value : Tree} (plain : value.isPlain) (inside : value.parts ⊆ t.parts)
    (kinds : ∀ part ∈ t.parts, part.kind? = none → select part = false) :
    value.parts.filter select = [] := by
  -- No part has a kind, and nothing without a kind is selected.
  rw [List.filter_eq_nil_iff]
  intro part found
  have kindless := List.all_eq_true.mp plain part found
  rw [Bool.and_eq_true, Option.isNone_iff_eq_none] at kindless
  simp [kinds part (inside found) kindless.1]

/-- Parts of some kind that a field holds lie in the nodes read that it holds. -/
theorem filter_fieldParts (legible : t.Legible) (kind : t.kind?.isSome)
    (kinds : ∀ part ∈ t.parts, part.kind? = none → select part = false)
    {field : String × Tree} (held : field ∈ t.fields) :
    (fieldParts field).filter select =
      (rangedIn field).flatMap fun child => child.2.parts.filter select := by
  -- Element by element: a node of some kind was read, and a plain value has nothing to select.
  rw [fieldParts]
  cases entered : isNoteKey field.1 with
  | true => simp [rangedIn, entered]
  | false =>
    rw [if_neg Bool.false_ne_true, rangedIn_elements entered, parts_elements,
      List.filter_flatMap, List.filterMap_eq_flatMap_toList, List.flatMap_assoc]
    refine List.flatMap_congr fun item member => ?_
    have within : item.parts ⊆ t.parts := fun part found => parts_subset_of_field held entered
      (by rw [parts_elements]; exact List.mem_flatMap.mpr ⟨item, member, found⟩)
    rcases (legible.self kind).direct field held entered item member with isNode | plain
    · obtain ⟨region, range⟩ := Option.isSome_iff_exists.mp
        ((legible.inside within).self isNode).read
      simp [ranged?, range]
    · -- There is nothing to select, whether the element was read or not.
      have none := filter_parts_plain plain within kinds
      rw [none]
      cases read : ranged? item with
      | none => rfl
      | some child =>
        rw [Option.toList_some, List.flatMap_singleton, (mem_ranged read).1, none]

/-- Parts of some kind below a node lie in the nodes read below it. -/
theorem filter_parts_children (legible : t.Legible) (kind : t.kind?.isSome)
    (kinds : ∀ part ∈ t.parts, part.kind? = none → select part = false) :
    t.parts.filter select = [t].filter select ++
      (t.fields.flatMap rangedIn).flatMap fun child => child.2.parts.filter select := by
  -- The node itself comes first, then what its fields hold.
  cases t with
  | node name mark fields =>
    have split : (node name mark fields).parts =
        [node name mark fields] ++ fields.flatMap fieldParts := parts_node ..
    rw [split, List.filter_append, List.filter_flatMap, List.flatMap_assoc]
    exact congrArg _ (List.flatMap_congr fun field held =>
      filter_fieldParts legible kind kinds held)
  | _ => simp [kind?] at kind

/-- Parts of some kind below a node that lifting takes apart lie in the fields where it holds
nodes. -/
theorem filter_parts_held (legible : t.Legible) {keys : List String}
    (known : heldIn? t.kind? = some keys) (kind : t.kind?.isSome)
    (kinds : ∀ part ∈ t.parts, part.kind? = none → select part = false) :
    t.parts.filter select = [t].filter select ++
      keys.flatMap fun key => (t.get key).parts.filter select := by
  -- Fields that the table does not name hold plain values, which give nothing.
  have fields := @flatMap_fields _ t keys (legible.self kind) known
    (fun field => (fieldParts field).filter select) fun field held blank => by
      rw [fieldParts]
      cases entered : isNoteKey field.1 with
      | true => rfl
      | false =>
        rw [if_neg Bool.false_ne_true]
        rcases held with held | absent
        · exact filter_parts_plain (blank.resolve_left (by simp [entered]))
            (parts_subset_of_field held entered) kinds
        · rw [absent]
          rfl
  have each : (keys.flatMap fun key => (fieldParts (key, t.get key)).filter select) =
      keys.flatMap fun key => (t.get key).parts.filter select := by
    refine List.flatMap_congr fun key member => ?_
    rw [fieldParts, (nodup_of_heldIn known).2 key member, if_neg Bool.false_ne_true]
  cases t with
  | node name mark inner =>
    have split : (node name mark inner).parts =
        [node name mark inner] ++ inner.flatMap fieldParts := parts_node ..
    rw [split, List.filter_append, List.filter_flatMap]
    exact congrArg _ (fields.trans each)
  | _ => simp [kind?] at kind

end Selecting

section Finding

variable {t : Tree}

/-- The comments in a tree stand before the node or in the nodes read below it. -/
theorem marked_children (legible : t.Legible) (kind : t.kind?.isSome) :
    t.marked = [t].filter isCommented ++
      (t.fields.flatMap rangedIn).flatMap fun child => child.2.marked :=
  filter_parts_children legible kind fun _ member => legible.kind_of_isCommented member

/-- The comments in a node that lifting takes apart stand before it or in what it holds. -/
theorem marked_held (legible : t.Legible) {keys : List String}
    (known : heldIn? t.kind? = some keys) (kind : t.kind?.isSome) :
    t.marked = [t].filter isCommented ++ keys.flatMap fun key => (t.get key).marked :=
  filter_parts_held legible known kind fun _ member => legible.kind_of_isCommented member

/-- No comment stands before a node that is neither of the two kinds of statements. -/
theorem not_isCommented (legible : t.Legible) {kind : String} (isA : t.isA kind)
    (inner : kind ≠ "VariableDeclaration" ∧ kind ≠ "ExpressionStatement") :
    t.isCommented = false := by
  -- The flags say which nodes can have comments, and this is none of them.
  have same : t.kind? = some kind := beq_iff_eq.mp isA
  cases commented : t.isCommented with
  | false => rfl
  | true =>
    rcases (legible.flagged t (mem_parts_of_kind (kind_of_isA isA))).kinds commented with is | is
    · simp [Tree.isA, same, inner.1] at is
    · simp [Tree.isA, same, inner.2] at is

/-- The comments in a node that lifting takes apart, and that is no statement, stand in what it
holds. -/
theorem marked_of_isA (legible : t.Legible) {kind : String} (isA : t.isA kind) {keys : List String}
    (known : heldIn? (some kind) = some keys)
    (inner : kind ≠ "VariableDeclaration" ∧ kind ≠ "ExpressionStatement") :
    t.marked = keys.flatMap fun key => (t.get key).marked := by
  -- The node itself has no comment, so all stand in the fields of the table.
  rw [marked_held legible (by rw [beq_iff_eq.mp isA]; exact known) (kind_of_isA isA)]
  simp [not_isCommented legible isA inner]

/-- The comments in a list stand in its elements. -/
theorem marked_series (series : t.isSeries) : t.marked = t.items.flatMap marked := by
  -- What is missing has no comments and no elements.
  cases t with
  | list items => exact marked_list items
  | null => rfl
  | _ => cases series

/-- There are no comments in what a node holds in other fields. -/
theorem marked_unheld (legible : t.Legible) {keys : List String}
    (known : heldIn? t.kind? = some keys) (kind : t.kind?.isSome) {key : String}
    (entered : isNoteKey key = false) (other : key ∉ keys) : (t.get key).marked = [] := by
  rw [get]
  cases found : t.fields.lookup key with
  | none => rfl
  | some value =>
    have held := mem_of_lookup found
    refine filter_parts_plain ?_ (parts_subset_of_field held entered)
      fun _ member => legible.kind_of_isCommented member
    -- A field that holds nodes is one of those known for the kind.
    cases plain : value.isPlain with
    | true => exact plain
    | false =>
      refine absurd (((legible.self kind).held keys known).subset ?_) other
      exact List.mem_map_of_mem (List.mem_filter.mpr ⟨held, by simp [entered, plain]⟩)

/-- A value without comments conceals none. -/
theorem revealed_of_unmarked (none : t.marked = []) : t.Revealed := by
  -- The comments of a part are among those of the value, which are none.
  intro part member _
  exact List.sublist_nil.mp (marked_of_mem none member ▸
    marked_sublist (parts_get_sublist part rfl))

/-- A list conceals no comment if and only if its elements do not. -/
theorem revealed_list (items : List Tree) :
    (list items).Revealed ↔ ∀ item ∈ items, item.Revealed := by
  -- A part of the list is a part of one of its elements.
  simp only [Revealed, parts_list, List.mem_flatMap]
  exact ⟨fun all item held part member => all part ⟨item, held, member⟩,
    fun all part ⟨item, held, member⟩ => all item held part member⟩

/-- The same of a list that may be missing. -/
theorem revealed_series (series : t.isSeries) : t.Revealed ↔ ∀ item ∈ t.items, item.Revealed := by
  -- What is missing has no parts.
  cases t with
  | list items => exact revealed_list items
  | null => simp [Revealed, items]
  | _ => cases series

/-- Only a property can be written without its key. -/
theorem isShorthand_of_kindless (kindless : t.kind? = none) : t.isShorthand = false := by
  simp [isShorthand, isA, kindless]

/-- Whether comments are concealed is told by the properties written without their keys. -/
theorem revealed_iff_filter :
    t.Revealed ↔ ∀ part ∈ t.parts.filter isShorthand, (part.get "value").marked = [] := by
  simp only [Revealed, List.mem_filter, and_imp]

/-- A tree conceals no comment if and only if neither the node does nor those read below it. -/
theorem revealed_children (legible : t.Legible) (kind : t.kind?.isSome) :
    t.Revealed ↔ (t.isShorthand → (t.get "value").marked = []) ∧
      ∀ child ∈ t.fields.flatMap rangedIn, child.2.Revealed := by
  -- A property that conceals something is the node itself or lies below it.
  rw [revealed_iff_filter, filter_parts_children legible kind fun _ _ => isShorthand_of_kindless]
  constructor
  · intro all
    refine ⟨fun shorthand => all t (List.mem_append_left _ ?_), fun child held => ?_⟩
    · exact List.mem_filter.mpr ⟨List.mem_singleton_self t, shorthand⟩
    · exact revealed_iff_filter.mpr fun part member =>
        all part (List.mem_append_right _ (List.mem_flatMap.mpr ⟨child, held, member⟩))
  · rintro ⟨own, below⟩ part member
    rcases List.mem_append.mp member with first | later
    · obtain ⟨same, shorthand⟩ := List.mem_filter.mp first
      rw [List.mem_singleton] at same
      subst same
      exact own shorthand
    · obtain ⟨child, held, inside⟩ := List.mem_flatMap.mp later
      exact revealed_iff_filter.mp (below child held) part inside

/-- A node that lifting takes apart conceals no comment if and only if what it holds does not. -/
theorem revealed_of_isA (legible : t.Legible) {kind : String} (isA : t.isA kind)
    {keys : List String} (known : heldIn? (some kind) = some keys) (other : kind ≠ "Property") :
    t.Revealed ↔ ∀ key ∈ keys, (t.get key).Revealed := by
  -- The node is no property, so what conceals something lies in what it holds.
  have same : t.kind? = some kind := beq_iff_eq.mp isA
  have self : [t].filter isShorthand = [] := by simp [isShorthand, Tree.isA, same, other]
  rw [revealed_iff_filter, filter_parts_held legible (by rw [same]; exact known) (kind_of_isA isA)
    fun _ _ => isShorthand_of_kindless, self, List.nil_append]
  constructor
  · intro all key held
    exact revealed_iff_filter.mpr fun part member =>
      all part (List.mem_flatMap.mpr ⟨key, held, member⟩)
  · intro below part member
    obtain ⟨key, held, inside⟩ := List.mem_flatMap.mp member
    exact revealed_iff_filter.mp (below key held) part inside

end Finding

end ModuleLift.Tree
