import Mathlib.Data.List.Basic
import Mathlib.Data.List.Induction
import ModuleLift.ExportMap

/-! The entries of an object literal that are exported by name: the last entry with a key counts,
and it stands in the place of the first. Entries are gathered in a dictionary; the invariant of
that loop is what its keys and its values are after any number of entries. -/

namespace ModuleLift.ExportMap

/-- One more entry is written into the dictionary of those before it. -/
theorem latest_concat (entries : List (Text × Option Text)) (entry : Text × Option Text) :
    latest ⟨entries ++ [entry]⟩ = (latest ⟨entries⟩).insert entry.1 entry.2 := by
  -- A fold over one more entry takes one more step at the end.
  simp only [latest, List.foldl_append, List.foldl_cons, List.foldl_nil]

/-- After any entries, the keys of the dictionary are theirs, without repetitions. -/
theorem keys_latest (m : ExportMap) : m.latest.keys = (m.entries.map (·.1)).eraseDups := by
  obtain ⟨entries⟩ := m
  induction entries using List.reverseRecOn with
  | nil => rfl
  | append_singleton entries entry ih =>
    -- A key that is there keeps its place, and a new one goes to the end.
    rw [latest_concat, Dictionary.insert, Dictionary.keys_alter, ih, List.map_append,
      List.eraseDups_append]
    by_cases known : entry.1 ∈ entries.map (·.1)
    · have none : ([entry].map (·.1)).removeAll (entries.map (·.1)) = [] := by
        simpa [List.removeAll] using known
      rw [if_pos (List.mem_eraseDups.mpr known), none]
      simp
    · have new : ([entry].map (·.1)).removeAll (entries.map (·.1)) = [entry.1] := by
        simpa [List.removeAll] using known
      rw [if_neg (fun held => known (List.mem_eraseDups.mp held)), new]
      rfl

/-- After any entries, the value under a key is that of the last entry with it. -/
theorem get?_latest (m : ExportMap) (key : Text) :
    m.latest.get? key = m.entries.reverse.lookup key := by
  obtain ⟨entries⟩ := m
  induction entries using List.reverseRecOn with
  | nil => rfl
  | append_singleton entries entry ih =>
    -- The entry that is written last is the first to be found from behind.
    rw [latest_concat, Dictionary.insert, Dictionary.get?_alter, ih, List.reverse_append,
      List.reverse_singleton, List.singleton_append, lookup_cons_ite]

/-- Without repetitions, keys stand in the order of their first occurrences. -/
theorem pairwise_idxOf_eraseDups (keys : List Text) :
    keys.eraseDups.Pairwise fun first second => keys.idxOf first < keys.idxOf second := by
  -- One more key changes no place, and goes to the end unless it is there already.
  induction keys using List.reverseRecOn with
  | nil => exact .nil
  | append_singleton keys key ih =>
    have place {other : Text} (held : other ∈ keys.eraseDups) :
        (keys ++ [key]).idxOf other = keys.idxOf other :=
      List.idxOf_append_of_mem (List.mem_eraseDups.mp held)
    have before : keys.eraseDups.Pairwise fun first second =>
        (keys ++ [key]).idxOf first < (keys ++ [key]).idxOf second := by
      refine ih.imp_of_mem fun first second earlier => ?_
      rwa [place first, place second]
    rw [List.eraseDups_append]
    by_cases known : key ∈ keys
    · have none : [key].removeAll keys = [] := by simp [List.removeAll, known]
      rw [none]
      simpa using before
    · have new : [key].removeAll keys = [key] := by simp [List.removeAll, known]
      rw [new, List.pairwise_append]
      refine ⟨before, List.pairwise_singleton _ _, fun first held last single => ?_⟩
      have same : last = key := by simpa using single
      rw [place held, same, List.idxOf_append_of_notMem known]
      exact Nat.lt_add_right _ (List.idxOf_lt_length_of_mem (List.mem_eraseDups.mp held))

variable {m : ExportMap} {key bound : Text}

/-- A key has the value of the last entry with it. -/
theorem get?_latest_eq_some_iff {value : Option Text} : m.latest.get? key = some value ↔
    ∃ before after, m.entries = before ++ (key, value) :: after ∧
      ∀ entry ∈ after, entry.1 ≠ key := by
  rw [get?_latest, List.lookup_eq_some_iff]
  -- What comes first in the reverse comes last in the list.
  constructor
  · rintro ⟨after, before, split, other⟩
    refine ⟨before.reverse, after.reverse, ?_, fun entry held => ?_⟩
    · rw [← List.reverse_reverse m.entries, split]
      simp
    · have differs := other entry (List.mem_reverse.mp held)
      exact fun same => by simp [same] at differs
  · rintro ⟨before, after, split, other⟩
    refine ⟨after.reverse, before.reverse, by simp [split], fun entry held => ?_⟩
    have differs := other entry (List.mem_reverse.mp held)
    simpa [bne_iff_ne] using differs.symm

/-- An entry of the dictionary makes an export if its value is a name and its key is not the
default one. -/
theorem export_eq_some_iff {entry : Text × Option Text} {pair : Text × Text} :
    (if entry.1 = "default" then none else entry.2.map fun bound => (bound, entry.1)) =
        some pair ↔
      pair.2 ≠ "default" ∧ entry = (pair.2, some pair.1) := by
  -- The default key is left out, and a value that is no name exports nothing.
  obtain ⟨key, value⟩ := entry
  obtain ⟨bound, exported⟩ := pair
  by_cases isDefault : key = "default"
  · simp only [if_pos isDefault, reduceCtorEq, false_iff, not_and]
    exact fun named same => named ((congrArg Prod.fst same).symm.trans isDefault)
  · rw [if_neg isDefault, Option.map_eq_some_iff]
    constructor
    · rintro ⟨_, rfl, same⟩
      cases same
      exact ⟨isDefault, rfl⟩
    · rintro ⟨_, same⟩
      cases same
      exact ⟨bound, rfl, rfl⟩

/-- A name is exported under a key if the key is not the default one and the last entry with it has
the name as its value. -/
theorem mem_namedExports : (bound, key) ∈ m.namedExports ↔ key ≠ "default" ∧
    ∃ before after, m.entries = before ++ (key, some bound) :: after ∧
      ∀ entry ∈ after, entry.1 ≠ key := by
  rw [namedExports, List.mem_filterMap, ← get?_latest_eq_some_iff, ← Dictionary.mem_entries_iff]
  -- The entries of the dictionary make the exports, one each.
  constructor
  · rintro ⟨entry, held, made⟩
    obtain ⟨named, rfl⟩ := export_eq_some_iff.mp made
    exact ⟨named, held⟩
  · rintro ⟨named, held⟩
    exact ⟨_, held, export_eq_some_iff.mpr ⟨named, rfl⟩⟩

/-- Exports stand in the order in which their keys occur first. -/
theorem pairwise_namedExports (m : ExportMap) : m.namedExports.Pairwise fun first second =>
    (m.entries.map (·.1)).idxOf first.2 < (m.entries.map (·.1)).idxOf second.2 := by
  have ordered := pairwise_idxOf_eraseDups (m.entries.map (·.1))
  rw [← keys_latest, Dictionary.keys, List.pairwise_map] at ordered
  -- Leaving entries out does not change the order of the others.
  refine ordered.filterMap _ fun first second earlier here made there later => ?_
  obtain ⟨_, rfl⟩ := export_eq_some_iff.mp made
  obtain ⟨_, rfl⟩ := export_eq_some_iff.mp later
  exact earlier

/-- The entries exported by name have different keys. They are those whose key is not the default
one and whose value, in the last entry with that key, is a name, in the order in which their keys
occur first. -/
theorem namedExports_last_in_first_place (m : ExportMap) :
    (m.namedExports.map (·.2)).Nodup ∧
      (∀ bound key, (bound, key) ∈ m.namedExports ↔ key ≠ "default" ∧
        ∃ before after, m.entries = before ++ (key, some bound) :: after ∧
          ∀ entry ∈ after, entry.1 ≠ key) ∧
      m.namedExports.Pairwise fun first second =>
        (m.entries.map (·.1)).idxOf first.2 < (m.entries.map (·.1)).idxOf second.2 := by
  have ordered := m.pairwise_namedExports
  refine ⟨?_, fun bound key => mem_namedExports, ordered⟩
  -- Equal keys would have the same first occurrence.
  rw [List.Nodup, List.pairwise_map]
  refine ordered.imp fun earlier same => ?_
  rw [same] at earlier
  exact Nat.lt_irrefl _ earlier

end ModuleLift.ExportMap
