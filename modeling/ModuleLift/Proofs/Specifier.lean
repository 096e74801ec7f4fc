import ModuleLift.Specifier

/-! What a specifier is completed to: the first file found in one search through its candidates. It
goes on from what was written, and is as local as that. -/

namespace ModuleLift.Specifier

/-- A text that starts with another still does so with more behind it. -/
theorem startsWith_longer {start text longer : Text} (starts : Text.startsWith start text)
    (extends_ : text <+: longer) : Text.startsWith start longer := by
  -- Being a prefix is transitive.
  rw [Text.startsWith, List.isPrefixOf_iff_prefix] at starts ⊢
  exact starts.trans extends_

/-- The files a specifier may stand for, in the order in which they are asked for. -/
def candidates (extensions : List Text) (specifier : Text) : List Text :=
  if specifier = "." then extensions.map ("./index" ++ ·)
  else if !isLocal specifier then []
  else if Path.endsInSlash specifier then extensions.map (indexFile specifier)
  else if Path.hasExtension specifier then [specifier]
  else extensions.map (specifier ++ ·) ++ extensions.map (indexFile specifier)

section Searches

variable {isFile other : Text → Bool} {baseDir : Text} {first rest options : List Text}

/-- What is found is one of the options. -/
theorem mem_of_hit {candidate : Text} (hit : (search isFile baseDir options).hit = some candidate) :
    candidate ∈ options := by
  induction options with
  | nil => cases hit
  | cons option options ih =>
    rw [search] at hit
    -- The first option is found, or else the search goes on.
    split at hit
    · cases hit
      exact List.mem_cons_self
    · exact List.mem_cons_of_mem _ (ih hit)

/-- Two searches one after the other are one search; the second is made only if the first one finds
nothing. -/
theorem search_append : search isFile baseDir (first ++ rest) =
    (search isFile baseDir first).orElse fun _ => search isFile baseDir rest := by
  induction first with
  | nil => rfl
  | cons option first ih =>
    rw [List.cons_append, search, search]
    dsimp only
    by_cases found : isFile (Path.join baseDir option)
    · rw [if_pos found, if_pos found]
      rfl
    · -- One more path is asked for before either search goes on.
      rw [if_neg found, if_neg found, ih, Search.orElse, Search.orElse]
      dsimp only
      split <;> simp [*]

/-- A search depends only on the paths it asks for. -/
theorem search_congr
    (agree : ∀ path ∈ (search isFile baseDir options).probes, other path = isFile path) :
    search other baseDir options = search isFile baseDir options := by
  induction options with
  | nil => rfl
  | cons option options ih =>
    rw [search] at agree
    rw [search, search]
    dsimp only at agree ⊢
    -- What comes after a hit is not asked for, and need not agree.
    by_cases found : isFile (Path.join baseDir option)
    · rw [if_pos found] at agree
      have same := agree _ List.mem_cons_self
      rw [if_pos found, if_pos (same.trans found)]
    · rw [if_neg found] at agree
      have same := agree _ List.mem_cons_self
      rw [ih fun path held => agree path (List.mem_cons_of_mem _ held), same]

/-- Whether one of the first few options exists is known once the paths asked for are. -/
theorem any_congr
    (agree : ∀ path ∈ (search isFile baseDir (first ++ rest)).probes, other path = isFile path) :
    (first.any fun option => other (Path.join baseDir option)) =
      first.any fun option => isFile (Path.join baseDir option) := by
  induction first with
  | nil => rfl
  | cons option first ih =>
    rw [List.cons_append, search] at agree
    dsimp only at agree
    -- A hit ends the search, and nothing further on can change the answer.
    by_cases found : isFile (Path.join baseDir option)
    · rw [if_pos found] at agree
      have same := (agree _ List.mem_cons_self).trans found
      rw [List.any_cons, List.any_cons, found, same, Bool.true_or, Bool.true_or]
    · rw [if_neg found] at agree
      rw [List.any_cons, List.any_cons, agree _ List.mem_cons_self,
        ih fun path held => agree path (List.mem_cons_of_mem _ held)]

end Searches

/-- Completing a specifier is one search through its candidates. -/
theorem resolve_eq (isFile : Text → Bool) (baseDir : Text) (extensions : List Text)
    (specifier : Text) :
    resolve isFile baseDir extensions specifier =
      { (search isFile baseDir (candidates extensions specifier)).resolved specifier with
        isLocal := isLocal specifier } := by
  rw [resolve, candidates]
  by_cases dot : specifier = "."
  · rw [if_pos dot, if_pos dot, dot]
    rfl
  rw [if_neg dot, if_neg dot]
  cases relative : isLocal specifier with
  | false => rfl
  | true =>
    cases slash : Path.endsInSlash specifier with
    | true => rfl
    | false =>
      cases named : Path.hasExtension specifier with
      | true =>
        -- A single candidate is asked for, and it is the answer in any case.
        simp only [Bool.not_true, Bool.not_false, Bool.false_eq_true, if_false, Bool.and_true,
          if_true, search]
        cases isFile (Path.join baseDir specifier) <;> rfl
      | false =>
        -- Index files are asked for only if there is no file of that name.
        simp only [Bool.not_true, Bool.false_eq_true, if_false, Bool.and_false, search_append]
        rfl

/-- A specifier counts as local as it is written. -/
theorem isLocal_resolve (isFile : Text → Bool) (baseDir : Text) (extensions : List Text)
    (specifier : Text) :
    (resolve isFile baseDir extensions specifier).isLocal = isLocal specifier := by
  rw [resolve_eq]

section Candidates

variable {extensions : List Text} {specifier candidate : Text}

/-- Both ways to name an index file go on from the directory as written. -/
theorem prefix_indexFile (specifier ext : Text) : specifier <+: indexFile specifier ext := by
  -- With or without a slash, the name is put behind the directory.
  rw [indexFile]
  split <;> simp only [List.append_assoc, List.prefix_append]

/-- Every candidate goes on from the specifier as written. -/
theorem prefix_of_mem_candidates (member : candidate ∈ candidates extensions specifier) :
    specifier <+: candidate := by
  rw [candidates] at member
  split at member
  · rename_i dot
    obtain ⟨ext, _, rfl⟩ := List.mem_map.mp member
    rw [dot]
    exact ⟨"/index" ++ ext, rfl⟩
  · split at member
    · cases member
    · split at member
      · obtain ⟨ext, _, rfl⟩ := List.mem_map.mp member
        exact prefix_indexFile specifier ext
      · split at member
        · exact List.mem_singleton.mp member ▸ List.prefix_rfl
        · -- Files come first, then the index files of a directory.
          rcases List.mem_append.mp member with file | index
          · obtain ⟨ext, _, rfl⟩ := List.mem_map.mp file
            exact List.prefix_append specifier ext
          · obtain ⟨ext, _, rfl⟩ := List.mem_map.mp index
            exact prefix_indexFile specifier ext

/-- Only local specifiers have candidates. -/
theorem isLocal_of_mem_candidates (member : candidate ∈ candidates extensions specifier) :
    isLocal specifier := by
  -- The dot is local by itself; of the other specifiers only local ones get past the second test.
  rw [candidates] at member
  split at member
  · rename_i dot
    rw [dot]
    rfl
  · split at member
    · cases member
    · rename_i relative
      simpa using relative

/-- Every candidate is local. -/
theorem candidate_isLocal (member : candidate ∈ candidates extensions specifier) :
    isLocal candidate := by
  by_cases dot : specifier = "."
  · -- A dot alone stands for a directory, whose index file is named after a slash.
    rw [candidates, if_pos dot] at member
    obtain ⟨ext, _, rfl⟩ := List.mem_map.mp member
    rw [isLocal, show Text.startsWith "./" ("./index" ++ ext) from rfl, Bool.or_true, Bool.true_or]
  · have relative := isLocal_of_mem_candidates member
    have extends_ := prefix_of_mem_candidates member
    simp only [isLocal, Bool.or_eq_true, beq_iff_eq, dot, false_or] at relative ⊢
    rcases relative with here | above
    · exact .inl (.inr (startsWith_longer here extends_))
    · exact .inr (startsWith_longer above extends_)

end Candidates

/-- A completed specifier is local if and only if it was written as a local one. -/
theorem isLocal_path (isFile : Text → Bool) (baseDir : Text) (extensions : List Text)
    (specifier : Text) :
    isLocal (resolve isFile baseDir extensions specifier).path = isLocal specifier := by
  -- Only local specifiers have candidates, and these are local.
  rw [resolve_eq]
  show isLocal ((search isFile baseDir (candidates extensions specifier)).hit.getD specifier) = _
  cases hit : (search isFile baseDir (candidates extensions specifier)).hit with
  | none => rfl
  | some candidate =>
    have member := mem_of_hit hit
    rw [Option.getD_some, candidate_isLocal member, isLocal_of_mem_candidates member]

end ModuleLift.Specifier
