import ModuleLift.Proofs.Scope.Stored

/-! The record of an analysis is well formed, whatever tree is analysed: its scopes make up a tree
with the scope of the program at the root, which the listing goes through once, and names stand only
in scopes that can hold them. -/

namespace ModuleLift

open scoped List

/-- The scope that a scope lies in. -/
def Ledger.parent? (l : Ledger) (number : Nat) : Option Nat := l.scopes[number]?.bind (·.parent)

/-- A record whose scopes make up a tree, with names only where they can be bound. -/
structure Ledger.WellFormed (l : Ledger) : Prop where
  /-- All scopes opened have been counted. -/
  counted : l.counter = l.scopes.length
  /-- Scopes are called by their numbers, from zero on. -/
  ids : l.scopes.map Scope.id = (List.range l.scopes.length).map fun number =>
    "S" ++ toString number
  /-- All scopes are listed once. -/
  listed : l.flatten ~ List.range l.scopes.length
  /-- The listing ends of itself: more rounds would list nothing more. -/
  ends : ∀ rounds, l.scopes.length ≤ rounds → l.unstack rounds [0] = l.flatten
  /-- The first scope is listed first. -/
  first : l.flatten.head? = some 0
  /-- Every scope is listed after the one it lies in. -/
  after : ∀ outer inner, l.parent? inner = some outer → [outer, inner] <+ l.flatten
  /-- All scopes but the first lie in another one. -/
  alone : ∀ number < l.scopes.length, l.parent? number = none ↔ number = 0
  /-- A scope has a greater number than the one it lies in. -/
  later : ∀ outer inner, l.parent? inner = some outer → outer < inner
  /-- The scopes stored inside a scope are in the order of their numbers. -/
  siblings : ∀ scope ∈ l.scopes, scope.children.Pairwise (· < ·)
  /-- A scope is stored once inside the one it lies in, and inside no other. -/
  once : ∀ outer inner scope, l.scopes[outer]? = some scope →
    scope.children.count inner = if l.parent? inner = some outer then 1 else 0
  /-- Every name is bound in a scope that can hold it. -/
  bound : ∀ scope ∈ l.scopes, ∀ entry ∈ scope.bindings.entries, ∀ binding ∈ entry.2,
    binding.name = entry.1 ∧ scope.kind.admits binding.kind

namespace Journal

variable {j : Journal}

/-- Scopes are stored in the scopes they lie in. -/
theorem parent?_ledger (j : Journal) (number : Nat) :
    j.ledger.parent? number = j.parent? number := by
  -- The parent of a scope is stored as it is.
  rw [Ledger.parent?, getElem?_ledger, parent?]
  cases j.scopes[number]? <;> rfl

/-- A stored scope is one of the journal. -/
theorem exists_stored {scope : Scope} (held : scope ∈ j.ledger.scopes) :
    ∃ number entry, j.scopes[number]? = some entry ∧ scope = j.stored number entry := by
  -- It stands under some number, and so does the scope it was made of.
  obtain ⟨number, opened⟩ := List.mem_iff_getElem?.mp held
  rw [getElem?_ledger] at opened
  obtain ⟨entry, known, rfl⟩ := Option.map_eq_some_iff.mp opened
  exact ⟨number, entry, known, rfl⟩

/-- What stands under a name in a stored scope was bound there, by that name. -/
theorem mem_bindings_of_stored {number : Nat} {entry : ScopeEntry} {name : Text}
    {held : List Binding} {binding : Binding}
    (under : (name, held) ∈ (j.stored number entry).bindings.entries) (among : binding ∈ held) :
    binding.name = name ∧ (number, binding) ∈ j.bindings := by
  -- What is gathered under a name are the bindings of the scope that have it.
  have found : (gather (j.bindingsOf number)).get? name = some held :=
    Dictionary.mem_entries_iff.mp under
  rw [get?_gather] at found
  split at found
  · cases found
    obtain ⟨known, same⟩ := List.mem_filter.mp among
    obtain ⟨⟨scope, _⟩, met, rfl⟩ := List.mem_map.mp known
    obtain ⟨bound, here⟩ := List.mem_filter.mp met
    cases beq_iff_eq.mp here
    exact ⟨of_decide_eq_true same, bound⟩
  · cases found

/-- The ledger of a sound journal is well formed. -/
theorem Sound.wellFormed (sound : j.Sound) : j.ledger.WellFormed where
  counted := j.length_ledger.symm
  ids := by
    -- Both lists are compared at each number.
    refine List.ext_getElem (by simp) fun number here _ => ?_
    simp [ledger, stored]
  listed := by
    rw [sound.nested.flatten_ledger, length_ledger]
    exact sound.nested.below_perm
  ends := fun rounds enough => by
    rw [length_ledger] at enough
    rw [sound.nested.flatten_ledger, sound.nested.unstack_ledger enough]
  first := by
    rw [sound.nested.flatten_ledger, below_eq]
    rfl
  after := fun outer inner lies => by
    rw [sound.nested.flatten_ledger]
    exact sound.nested.sublist_below (by rwa [parent?_ledger] at lies)
  alone := fun number opened => by
    rw [length_ledger] at opened
    rw [parent?_ledger]
    constructor
    · intro alone
      by_contra inner
      obtain ⟨outer, _, lies⟩ := sound.nested.inner number (Nat.pos_of_ne_zero inner) opened
      rw [alone] at lies
      cases lies
    · rintro rfl
      exact sound.nested.parent_root
  later := fun outer inner lies => sound.nested.lt_of_parent (by rwa [parent?_ledger] at lies)
  siblings := fun scope held => by
    obtain ⟨number, entry, _, rfl⟩ := exists_stored held
    exact j.pairwise_children number
  once := fun outer inner scope opened => by
    rw [getElem?_ledger] at opened
    obtain ⟨entry, _, rfl⟩ := Option.map_eq_some_iff.mp opened
    rw [parent?_ledger]
    exact sound.nested.count_children outer inner
  bound := by
    rintro scope held ⟨name, bindings⟩ under binding among
    obtain ⟨number, entry, opened, rfl⟩ := exists_stored held
    obtain ⟨named, met⟩ := mem_bindings_of_stored under among
    -- Each binding was met in the scope that it is stored in.
    obtain ⟨other, known, admits⟩ := sound.bound _ met
    cases opened.symm.trans known
    exact ⟨named, admits⟩

end Journal

/-- The record of an analysis is well formed, whatever the tree. -/
theorem Scope.analyze_wellFormed (t : Tree) : (analyze t).WellFormed := by
  -- The journal of the analysis is sound.
  rw [analyze_eq]
  exact (sound_journal t).wellFormed

end ModuleLift
