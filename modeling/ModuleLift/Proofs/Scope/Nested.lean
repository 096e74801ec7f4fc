import Mathlib.Data.List.Nodup
import Mathlib.Data.List.Perm.Lattice
import ModuleLift.Proofs.Scope.Journal

/-! The scopes of a record as a tree: if every scope but the first lies in one that was opened
before it, then each scope is listed once among those inside the scope it lies in, and all scopes
are listed once, each after the one it lies in. -/

namespace ModuleLift

open scoped List

namespace Journal

variable {j : Journal} {scope outer inner number : Nat}

/-- Only scopes that were opened lie in another one. -/
theorem lt_next_of_parent (lies : j.parent? inner = some outer) : inner < j.next := by
  -- The scope is looked up in the journal.
  obtain ⟨_, opened, _⟩ := Option.bind_eq_some_iff.mp lies
  exact (List.getElem?_eq_some_iff.mp opened).1

/-- A scope is listed inside the one it lies in, if that was opened before. -/
theorem mem_children : inner ∈ j.children outer ↔ outer < inner ∧ j.parent? inner = some outer := by
  -- The numbers looked through are those of all scopes.
  simp only [children, List.mem_filter, List.mem_range, Bool.and_eq_true, decide_eq_true_eq,
    beq_iff_eq, and_iff_right_iff_imp]
  exact fun lies => lt_next_of_parent lies.2

/-- The scopes inside a scope stand in the order in which they were opened. -/
theorem pairwise_children (j : Journal) (scope : Nat) : (j.children scope).Pairwise (· < ·) :=
  List.pairwise_lt_range.filter _

/-- A scope and all scopes below it, outer ones first. -/
def below (j : Journal) (scope : Nat) : List Nat :=
  scope :: (j.children scope).attach.flatMap fun ⟨child, _⟩ => j.below child
termination_by j.next - scope
decreasing_by
  -- A child was opened after its parent, and all numbers stay below the count of scopes.
  rename_i held
  obtain ⟨later, lies⟩ := mem_children.mp held
  have := lt_next_of_parent lies
  omega

/-- What is below a scope is the scope and what is below those in it. -/
theorem below_eq (j : Journal) (scope : Nat) :
    j.below scope = scope :: (j.children scope).flatMap j.below := by
  -- The definition carries membership proofs along, which are dropped here.
  rw [below]
  simp

/-- A property holds of all scopes if each has it from those inside it. -/
@[elab_as_elim]
theorem outward {motive : Nat → Prop}
    (step : ∀ scope, (∀ inner ∈ j.children scope, motive inner) → motive scope) (scope : Nat) :
    motive scope :=
  step scope fun inner _ => outward step inner
termination_by j.next - scope
decreasing_by
  -- Numbers grow on the way in, up to the number of scopes.
  rename_i held
  obtain ⟨later, lies⟩ := mem_children.mp held
  have := lt_next_of_parent lies
  omega

/-- What is listed below a scope was not opened before it. -/
theorem le_of_mem_below (listed : number ∈ j.below scope) : scope ≤ number := by
  -- Induction outward: those in a scope were opened after it.
  induction scope using j.outward with
  | step scope ih =>
    rw [below_eq, List.mem_cons, List.mem_flatMap] at listed
    rcases listed with rfl | ⟨inner, held, listed⟩
    · exact Nat.le_refl _
    · exact Nat.le_trans (Nat.le_of_lt (mem_children.mp held).1) (ih inner held listed)

/-- With a scope, those inside it are listed, after it. -/
theorem sublist_below (listed : outer ∈ j.below scope) (held : inner ∈ j.children outer) :
    [outer, inner] <+ j.below scope := by
  induction scope using j.outward with
  | step scope ih =>
    rw [below_eq]
    rw [below_eq, List.mem_cons, List.mem_flatMap] at listed
    -- The scope itself comes first, and all that is inside it after.
    rcases listed with rfl | ⟨middle, among, listed⟩
    · refine List.Sublist.cons_cons _ (List.singleton_sublist.mpr ?_)
      refine List.mem_flatMap.mpr ⟨inner, held, ?_⟩
      rw [below_eq]
      exact List.mem_cons_self
    · have below : j.below middle <+ (j.children scope).flatMap j.below :=
        List.sublist_flatten_of_mem (List.mem_map_of_mem among)
      exact ((ih middle among listed).trans below).cons _

/-- What is listed below a scope is that scope, or lies in one that is listed. -/
theorem parent_of_mem_below (listed : number ∈ j.below scope) :
    number = scope ∨ ∃ outer ∈ j.below scope, number ∈ j.children outer := by
  -- Induction outward: one in the scope itself, or further below.
  induction scope using j.outward with
  | step scope ih =>
    rw [below_eq, List.mem_cons, List.mem_flatMap] at listed
    refine listed.imp_right ?_
    rintro ⟨middle, among, listed⟩
    rw [below_eq]
    rcases ih middle among listed with rfl | ⟨outer, above, held⟩
    · exact ⟨scope, List.mem_cons_self, among⟩
    · exact ⟨outer, List.mem_cons_of_mem _ (List.mem_flatMap.mpr ⟨middle, among, above⟩), held⟩

/-- No scope is listed below two scopes that lie in the same one. -/
theorem disjoint_below {first second : Nat} (here : first ∈ j.children scope)
    (there : second ∈ j.children scope) (earlier : first < second) :
    List.Disjoint (j.below first) (j.below second) := by
  intro number
  -- Going outward from a common scope, one would meet the scope around both below the first.
  induction number using Nat.strongRecOn with
  | ind number ih =>
    intro one other
    have later := le_of_mem_below other
    rcases parent_of_mem_below one with rfl | ⟨outer, above, held⟩
    · omega
    · obtain ⟨before, lies⟩ := mem_children.mp held
      rcases parent_of_mem_below other with rfl | ⟨around, beside, within⟩
      · have same := lies.symm.trans (mem_children.mp there).2
        cases same
        have back := le_of_mem_below above
        have := (mem_children.mp here).1
        omega
      · have same := lies.symm.trans (mem_children.mp within).2
        cases same
        exact ih outer before above beside

/-- No scope is listed twice. -/
theorem nodup_below (j : Journal) (scope : Nat) : (j.below scope).Nodup := by
  induction scope using j.outward with
  | step scope ih =>
    rw [below_eq, List.nodup_cons, List.mem_flatMap, List.nodup_flatMap]
    refine ⟨?_, ih, ?_⟩
    -- The scope itself was opened before all that is below it.
    · rintro ⟨inner, held, listed⟩
      have back := le_of_mem_below listed
      have := (mem_children.mp held).1
      omega
    · exact (j.pairwise_children scope).imp_of_mem fun here there => disjoint_below here there

/-- A record in which the first scope lies in no other, and every other scope in one that was opened
before it. -/
structure Nested (j : Journal) : Prop where
  root : ∃ scope, j.scopes[0]? = some scope ∧ scope.parent = none
  inner : ∀ number, 0 < number → number < j.next → ∃ outer < number, j.parent? number = some outer

section Nested

/-- The first scope lies in no other. -/
theorem Nested.parent_root (nested : j.Nested) : j.parent? 0 = none := by
  -- It is the one that was opened without a parent.
  obtain ⟨scope, opened, alone⟩ := nested.root
  rw [parent?, opened, Option.bind_some, alone]

/-- There is a scope. -/
theorem Nested.next_pos (nested : j.Nested) : 0 < j.next := by
  -- The first one was opened.
  obtain ⟨_, opened, _⟩ := nested.root
  exact (List.getElem?_eq_some_iff.mp opened).1

/-- A scope lies in one that was opened before. -/
theorem Nested.lt_of_parent (nested : j.Nested) (lies : j.parent? inner = some outer) :
    outer < inner := by
  -- The first scope lies in none, and of any other it is said.
  rcases Nat.eq_zero_or_pos inner with rfl | later
  · rw [nested.parent_root] at lies
    cases lies
  · obtain ⟨found, before, same⟩ := nested.inner inner later (lt_next_of_parent lies)
    cases lies.symm.trans same
    exact before

/-- A scope is listed inside the one it lies in. -/
theorem Nested.mem_children_iff (nested : j.Nested) :
    inner ∈ j.children outer ↔ j.parent? inner = some outer :=
  mem_children.trans (and_iff_right_of_imp nested.lt_of_parent)

/-- All scopes are listed below the first, since each lies in one that is. -/
theorem Nested.mem_below (nested : j.Nested) : number ∈ j.below 0 ↔ number < j.next := by
  constructor
  · intro listed
    rcases parent_of_mem_below listed with rfl | ⟨outer, _, held⟩
    · exact nested.next_pos
    · exact lt_next_of_parent (mem_children.mp held).2
  · -- A scope is listed with the one it lies in, which has a smaller number.
    induction number using Nat.strongRecOn with
    | ind number ih =>
      intro opened
      rcases Nat.eq_zero_or_pos number with rfl | later
      · rw [below_eq]
        exact List.mem_cons_self
      · obtain ⟨outer, before, lies⟩ := nested.inner number later opened
        have above := ih outer before (Nat.lt_trans before opened)
        have pair := sublist_below above (nested.mem_children_iff.mpr lies)
        exact pair.subset (List.mem_cons_of_mem _ List.mem_cons_self)

/-- Below the first scope each scope is listed once. -/
theorem Nested.below_perm (nested : j.Nested) : j.below 0 ~ List.range j.next := by
  -- Both lists have no repetitions, so it is enough that they have the same members.
  rw [List.perm_ext_iff_of_nodup (j.nodup_below 0) List.nodup_range]
  intro number
  rw [nested.mem_below, List.mem_range]

/-- A scope is listed after the one it lies in. -/
theorem Nested.sublist_below (nested : j.Nested) (lies : j.parent? inner = some outer) :
    [outer, inner] <+ j.below 0 := by
  -- The outer scope is listed, for all are, and what lies in it comes behind.
  have opened : outer < j.next := Nat.lt_trans (nested.lt_of_parent lies) (lt_next_of_parent lies)
  exact Journal.sublist_below (nested.mem_below.mpr opened) (nested.mem_children_iff.mpr lies)

/-- A scope is listed once inside the one it lies in, and inside no other. -/
theorem Nested.count_children (nested : j.Nested) (outer inner : Nat) :
    (j.children outer).count inner = if j.parent? inner = some outer then 1 else 0 := by
  -- The numbers listed inside a scope increase.
  have distinct : (j.children outer).Nodup :=
    (j.pairwise_children outer).imp fun earlier => Nat.ne_of_lt earlier
  rw [distinct.count]
  simp only [nested.mem_children_iff]

end Nested

end Journal

end ModuleLift
