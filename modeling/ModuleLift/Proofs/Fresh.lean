import ModuleLift.Fresh
import Mathlib.Data.List.Nodup
import Mathlib.Data.List.Perm.Subperm

/-! A fresh name is the base behind the least number of underscores that makes it free. -/

namespace ModuleLift

/-- A name behind a number of underscores. -/
def underscored (count : Nat) (name : Text) : Text := List.replicate count (.char '_') ++ name

/-- One more underscore goes before all the others. -/
theorem underscored_succ (count : Nat) (name : Text) :
    underscored (count + 1) name = underscored count ("_" ++ name) := by
  -- A run of equal letters may be extended at either end.
  have text : ("_" : Text) = [.char '_'] := by decide
  simp only [underscored, text, List.replicate_succ', List.append_assoc]

/-- The number of underscores tells the names made from one base apart. -/
theorem underscored_inj {first second : Nat} {name : Text}
    (same : underscored first name = underscored second name) : first = second := by
  -- Each underscore is one letter more.
  have lengths := congrArg List.length same
  simp only [underscored, List.length_append, List.length_replicate] at lengths
  omega

/-- A base stands at the end of every name made from it. -/
theorem suffix_underscored (count : Nat) (name : Text) : name <:+ underscored count name :=
  List.suffix_append _ _

/-- The search passes over taken names only, and stops early only at a name that is free. -/
theorem freshWithin_spec (taken : List Text) (turns : Nat) (name : Text) :
    ∃ count ≤ turns, freshWithin taken turns name = underscored count name ∧
      (∀ earlier < count, underscored earlier name ∈ taken) ∧
      (count < turns → underscored count name ∉ taken) := by
  -- Each turn either ends the search or moves one underscore into the base.
  induction turns generalizing name with
  | zero => exact ⟨0, Nat.le_refl 0, rfl, by omega, by omega⟩
  | succ turns ih =>
    rw [freshWithin]
    by_cases used : name ∈ taken
    · obtain ⟨count, bound, result, passed, stopped⟩ := ih ("_" ++ name)
      refine ⟨count + 1, by omega, ?_, ?_, ?_⟩
      · rw [if_pos (by simpa using used), result, underscored_succ]
      · intro earlier below
        cases earlier with
        | zero => exact used
        | succ earlier =>
          rw [underscored_succ]
          exact passed earlier (by omega)
      · intro early
        rw [underscored_succ]
        exact stopped (by omega)
    · refine ⟨0, by omega, ?_, by omega, fun _ => used⟩
      rw [if_neg (by simpa using used)]
      rfl

/-- Not every name with at most as many underscores as there are taken names can be taken. -/
theorem exists_free (taken : List Text) (name : Text) :
    ∃ count ≤ taken.length, underscored count name ∉ taken := by
  by_contra none
  have all : ∀ count ≤ taken.length, underscored count name ∈ taken := by
    intro count bound
    by_contra free
    exact none ⟨count, bound, free⟩
  -- Otherwise the taken names would hold one more name than there are of them.
  let tried := (List.range (taken.length + 1)).map fun count => underscored count name
  have distinct : tried.Nodup :=
    List.nodup_range.map fun first second same => underscored_inj same
  have held : tried ⊆ taken := by
    intro candidate member
    obtain ⟨count, below, rfl⟩ := List.mem_map.mp member
    exact all count (by simpa [Nat.lt_succ_iff] using below)
  have bound := (List.subperm_of_subset distinct held).length_le
  simp only [tried, List.length_map, List.length_range] at bound
  omega

/-- A fresh name is the base behind the least number of underscores that makes it free. -/
theorem freshName_spec (base : Text) (taken : List Text) :
    ∃ count, freshName base taken = underscored count base ∧ underscored count base ∉ taken ∧
      ∀ earlier < count, underscored earlier base ∈ taken := by
  obtain ⟨count, bound, result, passed, stopped⟩ := freshWithin_spec taken taken.length base
  obtain ⟨least, within, free⟩ := exists_free taken base
  -- The search cannot have used up its turns on taken names alone.
  have notPast : count ≤ least := by
    by_contra past
    exact free (passed least (by omega))
  refine ⟨count, result, ?_, passed⟩
  rcases Nat.lt_or_ge count taken.length with early | late
  · exact stopped early
  · have same : count = least := by omega
    rw [same]
    exact free

/-- A fresh name is not taken. -/
theorem freshName_not_mem (base : Text) (taken : List Text) : freshName base taken ∉ taken := by
  -- The search stops at the first candidate that is free.
  obtain ⟨count, result, free, _⟩ := freshName_spec base taken
  rw [result]
  exact free

/-- A base stands at the end of its fresh name. -/
theorem suffix_freshName (base : Text) (taken : List Text) : base <:+ freshName base taken := by
  -- Underscores are put before the base.
  obtain ⟨count, result, _, _⟩ := freshName_spec base taken
  rw [result]
  exact suffix_underscored count base

/-- Which name is chosen is told by the taken names among those made from the base. -/
theorem freshName_eq_iff {base : Text} {taken : List Text} {count : Nat} :
    freshName base taken = underscored count base ↔
      underscored count base ∉ taken ∧ ∀ earlier < count, underscored earlier base ∈ taken := by
  obtain ⟨chosen, result, free, passed⟩ := freshName_spec base taken
  rw [result]
  constructor
  · intro same
    have equal := underscored_inj same
    subst equal
    exact ⟨free, passed⟩
  · rintro ⟨otherFree, otherPassed⟩
    -- Two least numbers are the same number.
    have notBelow : ¬chosen < count := fun below => free (otherPassed chosen below)
    have notAbove : ¬count < chosen := fun above => otherFree (passed count above)
    have equal : chosen = count := by omega
    rw [equal]

/-- Fresh names for several bases, one after the other: each is taken for those after it. -/
def freshNames (taken : List Text) : List Text → List Text
  | [] => []
  | base :: rest =>
    freshName base taken :: freshNames (taken ++ [freshName base taken]) rest

/-- Fresh names for more bases are chosen with the earlier ones taken. -/
theorem freshNames_append (taken first second : List Text) :
    freshNames taken (first ++ second) =
      freshNames taken first ++ freshNames (taken ++ freshNames taken first) second := by
  -- The induction is on the first bases; the names chosen for them are carried along as taken.
  induction first generalizing taken with
  | nil => simp [freshNames]
  | cons base rest ih =>
    rw [List.cons_append, freshNames, ih, freshNames, List.cons_append, List.append_assoc]
    rfl

/-- Fresh names are not taken. -/
theorem not_mem_of_mem_freshNames {taken bases : List Text} {name : Text}
    (chosen : name ∈ freshNames taken bases) : name ∉ taken := by
  -- What is taken at first stays taken for all later choices.
  induction bases generalizing taken with
  | nil => simp [freshNames] at chosen
  | cons base rest ih =>
    rw [freshNames, List.mem_cons] at chosen
    rcases chosen with rfl | later
    · exact freshName_not_mem base taken
    · exact fun held => ih later (List.mem_append_left _ held)

/-- A base stands at the end of each of several fresh names. -/
theorem exists_suffix_of_mem_freshNames {taken bases : List Text} {name : Text}
    (chosen : name ∈ freshNames taken bases) : ∃ base ∈ bases, base <:+ name := by
  -- Each name is chosen for one base.
  induction bases generalizing taken with
  | nil => simp [freshNames] at chosen
  | cons base rest ih =>
    rw [freshNames, List.mem_cons] at chosen
    rcases chosen with rfl | later
    · exact ⟨base, List.mem_cons_self, suffix_freshName base taken⟩
    · obtain ⟨found, held, ends⟩ := ih later
      exact ⟨found, List.mem_cons_of_mem _ held, ends⟩

/-- Fresh names are chosen apart from each other. -/
theorem freshNames_nodup (taken bases : List Text) : (freshNames taken bases).Nodup := by
  induction bases generalizing taken with
  | nil => exact List.nodup_nil
  | cons base rest ih =>
    -- A later name avoids the first, which is taken by then.
    refine List.nodup_cons.mpr ⟨fun later => ?_, ih _⟩
    exact not_mem_of_mem_freshNames later (List.mem_append_right _ List.mem_cons_self)

end ModuleLift
