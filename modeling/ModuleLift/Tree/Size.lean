import ModuleLift.Tree.Basic

/-! What is reached through a field or list is smaller than the tree it is reached from. -/

namespace ModuleLift.Tree

/-- The value of a field is smaller than the list of fields. -/
theorem sizeOf_lookup_lt {key : String} {fields : List (String × Tree)} {value : Tree}
    (found : fields.lookup key = some value) : sizeOf value < sizeOf fields := by
  induction fields with
  | nil => simp at found
  | cons field rest ih =>
    obtain ⟨name, held⟩ := field
    rw [List.lookup_cons] at found
    -- Either the first field has the key, or the look-up goes on in the rest.
    split at found
    · cases found
      simp only [List.cons.sizeOf_spec, Prod.mk.sizeOf_spec]
      omega
    · have smaller := ih found
      simp only [List.cons.sizeOf_spec, Prod.mk.sizeOf_spec]
      omega

/-- Every tree has a size. -/
theorem sizeOf_pos (t : Tree) : 0 < sizeOf t := by
  -- One is added for the tree itself in each case.
  cases t <;> simp only [null.sizeOf_spec, flag.sizeOf_spec, number.sizeOf_spec, text.sizeOf_spec,
    list.sizeOf_spec, node.sizeOf_spec] <;> omega

/-- What a field of a node holds is smaller than the node, also when the field is absent. -/
theorem sizeOf_get_lt (kind : Option String) (mark : Mark) (fields : List (String × Tree))
    (key : String) : sizeOf ((node kind mark fields).get key) < sizeOf (node kind mark fields) := by
  simp only [get, Tree.fields, node.sizeOf_spec]
  cases found : fields.lookup key with
  | none =>
    -- An absent field reads as null, which is no larger than the empty list of fields.
    have : 0 < sizeOf fields := by
      cases fields <;> simp only [List.nil.sizeOf_spec, List.cons.sizeOf_spec] <;> omega
    simp only [Option.getD_none, null.sizeOf_spec]
    omega
  | some value =>
    have smaller := sizeOf_lookup_lt found
    simp only [Option.getD_some]
    omega

/-- The elements of a list are smaller than the list. -/
theorem sizeOf_lt_of_mem_items {t item : Tree} (member : item ∈ t.items) :
    sizeOf item < sizeOf t := by
  -- Only a list has elements.
  cases t with
  | list items =>
    have smaller := List.sizeOf_lt_of_mem (show item ∈ items from member)
    simp only [list.sizeOf_spec]
    omega
  | _ => simp [items] at member

/-- The elements of a list in a field are smaller than the node. -/
theorem sizeOf_lt_of_mem_get_items {kind : Option String} {mark : Mark}
    {fields : List (String × Tree)} {key : String} {item : Tree}
    (member : item ∈ ((node kind mark fields).get key).items) :
    sizeOf item < sizeOf (node kind mark fields) :=
  Nat.lt_trans (sizeOf_lt_of_mem_items member) (sizeOf_get_lt kind mark fields key)

/-- What a field of a tree that has a kind holds is smaller than the tree. -/
theorem sizeOf_get_lt_of_kind {t : Tree} {kind : String} (hasKind : t.kind? = some kind)
    (key : String) : sizeOf (t.get key) < sizeOf t := by
  -- Only a node has a kind.
  cases t with
  | node kind mark fields => exact sizeOf_get_lt kind mark fields key
  | _ => simp [kind?] at hasKind

/-- The elements of a list in a field of a tree that has a kind are smaller than the tree. -/
theorem sizeOf_lt_of_kind_of_mem {t item : Tree} {kind key : String}
    (hasKind : t.kind? = some kind) (member : item ∈ (t.get key).items) :
    sizeOf item < sizeOf t :=
  Nat.lt_trans (sizeOf_lt_of_mem_items member) (sizeOf_get_lt_of_kind hasKind key)

/-- Whatever a field of a tree holds is no larger than the tree. -/
theorem sizeOf_get_le (t : Tree) (key : String) : sizeOf (t.get key) ≤ sizeOf t := by
  -- A tree that is no node has no fields, and what is absent is as small as can be.
  cases t with
  | node kind mark fields => exact Nat.le_of_lt (sizeOf_get_lt kind mark fields key)
  | _ => simp [get, fields]

end ModuleLift.Tree
