/-! Dictionaries: values under different keys. A key that is written again keeps its place, so the
keys stand in the order in which they came first. -/

namespace ModuleLift

/-- The first entry with a key counts. -/
theorem lookup_cons_ite {κ β : Type} [BEq κ] [LawfulBEq κ] [DecidableEq κ] {other : κ}
    (entry : κ × β) (entries : List (κ × β)) : (entry :: entries).lookup other =
      if other = entry.1 then some entry.2 else entries.lookup other := by
  -- Equality of keys is decided as `lookup` decides it.
  rw [List.lookup_cons]
  by_cases same : other = entry.1
  · rw [if_pos same, beq_iff_eq.mpr same]
  · rw [if_neg same, beq_eq_false_iff_ne.mpr same]

/-- Changes the value under a key in place; a key that is new goes to the end. -/
def alterEntries {κ β : Type} [DecidableEq κ] (key : κ) (change : Option β → β) :
    List (κ × β) → List (κ × β)
  | [] => [(key, change none)]
  | entry :: rest =>
    if entry.1 = key then (key, change (some entry.2)) :: rest
    else entry :: alterEntries key change rest

section Entries

variable {κ β : Type} [DecidableEq κ] {key other : κ} {change : Option β → β}
  {entries : List (κ × β)}

/-- Writing under a key adds no other key. -/
theorem mem_keys_alterEntries : other ∈ (alterEntries key change entries).map (·.1) ↔
    other = key ∨ other ∈ entries.map (·.1) := by
  induction entries with
  | nil => simp [alterEntries]
  | cons entry rest ih =>
    rw [alterEntries]
    split
    · -- The entry that is written again had the key before.
      rename_i same
      simp [same]
    · rw [List.map_cons, List.mem_cons, ih, List.map_cons, List.mem_cons]
      exact or_left_comm

/-- Writing under a key leaves keys different. -/
theorem nodup_alterEntries (distinct : (entries.map (·.1)).Nodup) :
    ((alterEntries key change entries).map (·.1)).Nodup := by
  induction entries with
  | nil => simp [alterEntries]
  | cons entry rest ih =>
    rw [List.map_cons, List.nodup_cons] at distinct
    rw [alterEntries]
    split
    · -- In place of the entry stands one with the same key.
      rename_i same
      rw [List.map_cons, List.nodup_cons, ← same]
      exact distinct
    · -- A key that is met further on is not that of the entry.
      rename_i differs
      rw [List.map_cons, List.nodup_cons, mem_keys_alterEntries]
      exact ⟨not_or.mpr ⟨differs, distinct.1⟩, ih distinct.2⟩

/-- A key that is new goes to the end, any other stays in its place. -/
theorem keys_alterEntries : (alterEntries key change entries).map (·.1) =
    if key ∈ entries.map (·.1) then entries.map (·.1) else entries.map (·.1) ++ [key] := by
  induction entries with
  | nil => rfl
  | cons entry rest ih =>
    rw [alterEntries]
    by_cases same : entry.1 = key
    · simp [same]
    · -- The key is looked for further on, behind that of the entry.
      have differs : ¬key = entry.1 := fun equal => same equal.symm
      rw [if_neg same, List.map_cons, ih, List.map_cons]
      by_cases held : key ∈ rest.map (·.1)
      · rw [if_pos held, if_pos (List.mem_cons_of_mem _ held)]
      · rw [if_neg held, if_neg (by simpa [differs] using held), List.cons_append]

/-- Only the value under the key changes. -/
theorem lookup_alterEntries : (alterEntries key change entries).lookup other =
    if other = key then some (change (entries.lookup key)) else entries.lookup other := by
  induction entries with
  | nil => rw [alterEntries, lookup_cons_ite, List.lookup_nil, List.lookup_nil]
  | cons entry rest ih =>
    rw [alterEntries]
    by_cases here : entry.1 = key
    · -- The entry itself is written.
      rw [if_pos here, lookup_cons_ite, lookup_cons_ite, lookup_cons_ite, here, if_pos rfl]
      split <;> rfl
    · rw [if_neg here, lookup_cons_ite, ih, lookup_cons_ite, lookup_cons_ite, if_neg (Ne.symm here)]
      by_cases same : other = key
      · rw [if_pos same, if_pos same, if_neg (same ▸ Ne.symm here)]
      · rw [if_neg same, if_neg same]

end Entries

/-- Values under different keys. -/
structure Dictionary (κ β : Type) where
  entries : List (κ × β) := []
  distinct : (entries.map (·.1)).Nodup := by simp
deriving DecidableEq, Repr

namespace Dictionary

variable {κ β : Type}

instance : Inhabited (Dictionary κ β) := ⟨{}⟩

/-- The keys in the order in which they came first. -/
def keys (d : Dictionary κ β) : List κ := d.entries.map (·.1)

/-- An empty dictionary has no keys. -/
@[simp] theorem keys_empty : ({} : Dictionary κ β).keys = [] := rfl

variable [DecidableEq κ]

/-- The value under a key. -/
def get? (d : Dictionary κ β) (key : κ) : Option β := d.entries.lookup key

/-- Changes the value under a key, or gives it one if it has none. -/
def alter (d : Dictionary κ β) (key : κ) (change : Option β → β) : Dictionary κ β :=
  { entries := alterEntries key change d.entries, distinct := nodup_alterEntries d.distinct }

/-- Writes a value under a key. -/
def insert (d : Dictionary κ β) (key : κ) (value : β) : Dictionary κ β :=
  d.alter key fun _ => value

/-- An empty dictionary has no values. -/
@[simp] theorem get?_empty (key : κ) : ({} : Dictionary κ β).get? key = none := rfl

/-- Changing a value moves no key. -/
theorem keys_alter (d : Dictionary κ β) (key : κ) (change : Option β → β) :
    (d.alter key change).keys = if key ∈ d.keys then d.keys else d.keys ++ [key] :=
  keys_alterEntries

/-- Changing a value changes no other. -/
theorem get?_alter (d : Dictionary κ β) (key other : κ) (change : Option β → β) :
    (d.alter key change).get? other =
      if other = key then some (change (d.get? key)) else d.get? other :=
  lookup_alterEntries

/-- An entry is a key with the value under it. -/
theorem mem_entries_iff {d : Dictionary κ β} {key : κ} {value : β} :
    (key, value) ∈ d.entries ↔ d.get? key = some value := by
  obtain ⟨entries, distinct⟩ := d
  show _ ∈ entries ↔ entries.lookup key = some value
  induction entries with
  | nil => simp
  | cons entry rest ih =>
    obtain ⟨first, held⟩ := entry
    rw [List.map_cons, List.nodup_cons] at distinct
    rw [List.mem_cons, lookup_cons_ite]
    by_cases same : key = first
    · -- No entry further on has the key of the first.
      subst same
      have only : (key, value) ∉ rest := fun later =>
        distinct.1 (List.mem_map.mpr ⟨_, later, rfl⟩)
      simp [only, eq_comm]
    · rw [ih distinct.2]
      simp [same]

/-- The keys are those with a value. -/
theorem mem_keys_iff {d : Dictionary κ β} {key : κ} : key ∈ d.keys ↔ (d.get? key).isSome := by
  -- Keys are distinct, so an entry is the one that is found under its key.
  rw [keys, List.mem_map, Option.isSome_iff_exists]
  constructor
  · rintro ⟨⟨_, value⟩, held, rfl⟩
    exact ⟨value, mem_entries_iff.mp held⟩
  · rintro ⟨value, held⟩
    exact ⟨(key, value), mem_entries_iff.mpr held, rfl⟩

end Dictionary

end ModuleLift
