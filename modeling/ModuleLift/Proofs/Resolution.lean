import ModuleLift.Proofs.Lift.Probe
import ModuleLift.Proofs.Specifier
import Mathlib.Data.List.TakeWhile

/-! Which file a specifier is completed to: the first of its options that is one. The options are
told by the specifier as written, and the flag beside the answer says whether one of them was
found, which is not always whether the answer is a file. -/

namespace ModuleLift

namespace Path

/-- Letters behind the last slash belong to the last segment. -/
theorem lastSegment_append (path : Text) {more : Text} (within : .char '/' ∉ more) :
    lastSegment (path ++ more) = lastSegment path ++ more := by
  -- Read from the end, none of the letters behind the slash stops the segment.
  have passed : ∀ l ∈ more.reverse, (decide (l ≠ .char '/')) = true := by
    intro l member
    have held := List.mem_reverse.mp member
    exact decide_eq_true fun slash => within (slash ▸ held)
  rw [lastSegment, lastSegment, List.reverse_append, List.takeWhile_append_of_pos passed,
    List.reverse_append, List.reverse_reverse]

/-- The last segment is free of slashes and ends its path. -/
theorem lastSegment_spec (path : Text) :
    .char '/' ∉ lastSegment path ∧ ∃ folder, path = folder ++ lastSegment path := by
  -- The segment is what stands before the first slash of the reversed path.
  constructor
  · intro member
    have passed := List.mem_takeWhile_imp (List.mem_reverse.mp member)
    simp at passed
  · refine ⟨(path.reverse.dropWhile fun (l : Letter) => l ≠ '/').reverse, ?_⟩
    rw [lastSegment, ← List.reverse_append, List.takeWhile_append_dropWhile, List.reverse_reverse]

/-- A path that ends in an extension: its last dot stands in the last segment, and not only dots
stand before it there. -/
structure Extends (path root ext : Text) : Prop where
  whole : path = root ++ .char '.' :: ext
  lastDot : .char '.' ∉ ext
  within : .char '/' ∉ ext
  stem : ∃ l ∈ lastSegment root, l ≠ .char '.'

/-- The test for an extension finds exactly the paths that end in one. -/
theorem hasExtension_iff (path : Text) : hasExtension path ↔ ∃ root ext, Extends path root ext := by
  rw [hasExtension, List.contains_iff_mem]
  constructor
  · intro dotted
    obtain ⟨free, folder, whole⟩ := lastSegment_spec path
    -- The last dot of the segment is the first one from its end.
    obtain ⟨after, before, split, fresh⟩ :=
      List.eq_append_cons_of_mem (List.mem_reverse.mpr dotted)
    have rest : (lastSegment path).dropWhile (fun (l : Letter) => l = '.') =
        before.reverse ++ .char '.' :: after.reverse := by
      rw [← List.reverse_reverse (List.dropWhile _ _), split]
      simp
    -- What the leading dots were dropped from starts with another letter.
    have kept := List.head_dropWhile_not (fun (l : Letter) => decide (l = '.'))
      (show (lastSegment path).dropWhile (fun (l : Letter) => l = '.') ≠ [] by rw [rest]; simp)
    obtain ⟨first, stem, started⟩ : ∃ first stem, before.reverse = first :: stem := by
      cases started : before.reverse with
      | cons first stem => exact ⟨first, stem, rfl⟩
      | nil => simp [rest, started] at kept
    have other : first ≠ .char '.' := by simpa [rest, started] using kept
    have segment : lastSegment path =
        (lastSegment path).takeWhile (fun (l : Letter) => l = '.') ++
          (before.reverse ++ .char '.' :: after.reverse) := by
      rw [← rest, List.takeWhile_append_dropWhile]
    have inside : ∀ l, l ∈ before.reverse ++ .char '.' :: after.reverse → l ∈ lastSegment path := by
      intro l member
      rw [segment]
      exact List.mem_append_right _ member
    refine ⟨folder ++ (lastSegment path).takeWhile (fun (l : Letter) => l = '.') ++ before.reverse,
      after.reverse, ⟨?_, by simpa using fresh, ?_, first, ?_, other⟩⟩
    · rw [List.append_assoc, List.append_assoc, ← segment]
      exact whole
    · intro slash
      exact free (inside _ (List.mem_append_right _ (List.mem_cons_of_mem _ slash)))
    · rw [lastSegment_append _ fun slash => free (inside _ (List.mem_append_left _ slash))]
      exact List.mem_append_right _ (started ▸ List.mem_cons_self)
  · rintro ⟨root, ext, whole, _, within, l, member, other⟩
    have segment : lastSegment path = lastSegment root ++ .char '.' :: ext := by
      rw [whole]
      exact lastSegment_append root (by simp [within])
    rw [segment, List.dropWhile_append]
    -- The letter that is no dot stays, and everything behind it.
    split
    · rename_i dropped
      have all := List.dropWhile_eq_nil_iff.mp (List.isEmpty_iff.mp dropped) l member
      exact absurd (of_decide_eq_true all) other
    · exact List.mem_append_right _ List.mem_cons_self

end Path

namespace Specifier

/-- A specifier that names a file relative to the one it stands in. -/
def Relative (specifier : Text) : Prop :=
  specifier = "." ∨ ("./" : Text) <+: specifier ∨ ("../" : Text) <+: specifier

instance (specifier : Text) : Decidable (Relative specifier) :=
  inferInstanceAs (Decidable (_ ∨ _ ∨ _))

/-- The test for local specifiers reads their first letters. -/
theorem isLocal_iff (specifier : Text) : isLocal specifier ↔ Relative specifier := by
  -- The first text is compared as a whole, the two others as prefixes.
  simp only [isLocal, Relative, Text.startsWith, Bool.or_eq_true, beq_iff_eq,
    List.isPrefixOf_iff_prefix, or_assoc]

/-- The last letter is a slash if a slash is an end of the text. -/
theorem endsInSlash_iff (specifier : Text) :
    Path.endsInSlash specifier ↔ ("/" : Text) <:+ specifier := by
  -- A text with a last letter is that letter put at its end.
  have slash : ("/" : Text) = [.char '/'] := by decide
  rw [Path.endsInSlash, decide_eq_true_iff, slash, List.getLast?_eq_some_iff]
  constructor
  · rintro ⟨before, whole⟩
    exact ⟨before, whole.symm⟩
  · rintro ⟨before, whole⟩
    exact ⟨before, whole.symm⟩

/-- Behind a slash no second one is put. -/
theorem indexFile_of_slash {specifier : Text} (slash : Path.endsInSlash specifier) :
    indexFile specifier = fun ext => specifier ++ "index" ++ ext := by
  -- The branch for the slash, for every extension.
  funext ext
  rw [indexFile, if_pos slash]

/-- Where no slash ends the specifier one is put in. -/
theorem indexFile_of_open {specifier : Text} (open_ : ¬Path.endsInSlash specifier) :
    indexFile specifier = fun ext => specifier ++ "/index" ++ ext := by
  -- The other branch, for every extension.
  funext ext
  rw [indexFile, if_neg open_]

/-- The files a specifier may stand for, in the order of preference, by its form. -/
inductive Offers (extensions : List Text) (specifier : Text) : List Text → Prop where
  | foreign (far : ¬Relative specifier) : Offers extensions specifier []
  | dot (here : specifier = ".") :
    Offers extensions specifier (extensions.map fun ext => "./index" ++ ext)
  | directory (near : Relative specifier) (slash : ("/" : Text) <:+ specifier) :
    Offers extensions specifier (extensions.map fun ext => specifier ++ "index" ++ ext)
  | complete (near : Relative specifier) (open_ : ¬("/" : Text) <:+ specifier)
    (extended : ∃ root ext, Path.Extends specifier root ext) :
    Offers extensions specifier [specifier]
  | bare (near : Relative specifier) (other : specifier ≠ ".")
    (open_ : ¬("/" : Text) <:+ specifier) (plain : ¬∃ root ext, Path.Extends specifier root ext) :
    Offers extensions specifier ((extensions.map fun ext => specifier ++ ext) ++
      extensions.map fun ext => specifier ++ "/index" ++ ext)

section Options

variable {extensions : List Text} {specifier : Text}

/-- A dot alone is relative, but neither a directory with its slash nor a name with an
extension. -/
theorem dot_form : Relative "." ∧ ¬("/" : Text) <:+ "." ∧ Path.hasExtension "." = false := by
  decide

/-- The form of a specifier tells its candidates. -/
theorem offers_iff (options : List Text) :
    Offers extensions specifier options ↔ options = candidates extensions specifier := by
  -- Each form of a specifier answers the tests that come before its own with no.
  constructor
  · intro offers
    rw [candidates]
    cases offers with
    | foreign far =>
      -- A single dot is relative, so what is not relative is none.
      have other : specifier ≠ "." := fun dot => far (dot ▸ dot_form.1)
      have foreign : isLocal specifier = false := by
        rw [Bool.eq_false_iff, Ne, isLocal_iff]
        exact far
      rw [if_neg other, foreign]
      rfl
    | dot here => rw [if_pos here]
    | directory near slash =>
      have other : specifier ≠ "." := fun dot => dot_form.2.1 (dot ▸ slash)
      rw [if_neg other, (isLocal_iff _).mpr near, if_neg (by decide),
        if_pos ((endsInSlash_iff _).mpr slash)]
      rw [indexFile_of_slash ((endsInSlash_iff _).mpr slash)]
    | complete near open_ extended =>
      have named := (Path.hasExtension_iff specifier).mpr extended
      -- The name of the current directory has no extension.
      have other : specifier ≠ "." := by
        rintro rfl
        rw [dot_form.2.2] at named
        exact Bool.false_ne_true named
      rw [if_neg other, (isLocal_iff _).mpr near, if_neg (by decide),
        if_neg (mt (endsInSlash_iff _).mp open_), if_pos named]
    | bare near other open_ plain =>
      have shut := mt (endsInSlash_iff _).mp open_
      rw [if_neg other, (isLocal_iff _).mpr near, if_neg (by decide), if_neg shut,
        if_neg (mt (Path.hasExtension_iff specifier).mp plain)]
      rw [indexFile_of_open shut]
  · -- The other way round, the tests that were passed tell the form.
    rintro rfl
    rw [candidates]
    split
    · exact .dot ‹_›
    · rename_i other
      split
      · rename_i far
        exact .foreign (mt (isLocal_iff _).mpr (by simpa using far))
      · rename_i near
        have relative := (isLocal_iff specifier).mp (by simpa using near)
        split
        · rename_i slash
          rw [indexFile_of_slash slash]
          exact .directory relative ((endsInSlash_iff specifier).mp slash)
        · rename_i open_
          have shut := mt (endsInSlash_iff specifier).mpr open_
          split
          · exact .complete relative shut ((Path.hasExtension_iff specifier).mp ‹_›)
          · rename_i plain
            rw [indexFile_of_open open_]
            exact .bare relative other shut (mt (Path.hasExtension_iff specifier).mpr plain)

end Options

/-- What comes of looking through options for the first that is a file: the answer, whether it was
found, and the paths asked for. -/
inductive Chooses (isFile : Text → Bool) (baseDir specifier : Text) (options : List Text) :
    (path : Text) → (found : Bool) → (probes : List Text) → Prop where
  | hit {before after : List Text} {option : Text} (listed : options = before ++ option :: after)
    (passed : ∀ earlier ∈ before, isFile (Path.join baseDir earlier) = false)
    (file : isFile (Path.join baseDir option)) :
    Chooses isFile baseDir specifier options option true
      ((before ++ [option]).map (Path.join baseDir))
  | miss (none : ∀ option ∈ options, isFile (Path.join baseDir option) = false) :
    Chooses isFile baseDir specifier options specifier false (options.map (Path.join baseDir))

section Choice

variable {isFile : Text → Bool} {baseDir specifier : Text} {extensions : List Text}

/-- The search stops at the first hit, and what it asked for is everything up to there. -/
theorem chooses_search (options : List Text) :
    Chooses isFile baseDir specifier options
      ((search isFile baseDir options).hit.getD specifier)
      (search isFile baseDir options).hit.isSome (search isFile baseDir options).probes := by
  induction options with
  | nil => exact .miss (by simp)
  | cons first rest ih =>
    rw [search]
    dsimp only
    by_cases file : isFile (Path.join baseDir first)
    · rw [if_pos file]
      exact .hit (show first :: rest = [] ++ first :: rest from rfl) (by simp) file
    · have absent : isFile (Path.join baseDir first) = false := by simpa using file
      rw [if_neg file]
      dsimp only
      -- One more option is passed over before whatever comes of the rest.
      revert ih
      generalize (search isFile baseDir rest).hit.getD specifier = path
      generalize (search isFile baseDir rest).hit.isSome = found
      generalize (search isFile baseDir rest).probes = probes
      rintro (⟨listed, passed, hit⟩ | none)
      · rename_i before after
        have further : first :: rest = (first :: before) ++ path :: after := by
          rw [listed, List.cons_append]
        exact .hit further (List.forall_mem_cons.mpr ⟨absent, passed⟩) hit
      · exact .miss (List.forall_mem_cons.mpr ⟨absent, none⟩)

/-- A specifier is completed to what the search through its candidates comes to. -/
theorem resolve_chooses : Chooses isFile baseDir specifier (candidates extensions specifier)
    (resolve isFile baseDir extensions specifier).path
    (resolve isFile baseDir extensions specifier).found
    (resolve isFile baseDir extensions specifier).probes := by
  -- The two searches are one search through all candidates.
  rw [resolve_eq]
  exact chooses_search (candidates extensions specifier)

/-- A file that was found is one of the options, and it is there. -/
theorem found_spec {options : List Text} {path : Text} {probes : List Text}
    (chosen : Chooses isFile baseDir specifier options path true probes) :
    path ∈ options ∧ isFile (Path.join baseDir path) := by
  -- Only a hit says that a file was found.
  cases chosen with
  | hit listed passed file => exact ⟨by rw [listed]; simp, file⟩

/-- Where no file was found the specifier stays, and no option is a file. -/
theorem missed_spec {options : List Text} {path : Text} {probes : List Text}
    (chosen : Chooses isFile baseDir specifier options path false probes) :
    path = specifier ∧ ∀ option ∈ options, isFile (Path.join baseDir option) = false := by
  -- Only a miss says that none was found.
  cases chosen with
  | miss none => exact ⟨rfl, none⟩

end Choice

/-- A specifier is completed to the first of its options that is a file, and stays as it is if none
is. The paths asked for are those of the options up to that one; nothing else about the files
matters. A completed specifier is relative and goes on from what was written. -/
theorem resolve_first_option (isFile : Text → Bool) (baseDir : Text) (extensions : List Text)
    (specifier : Text) :
    let resolved := resolve isFile baseDir extensions specifier
    ∃ options, (∀ others, Offers extensions specifier others ↔ others = options) ∧
      Chooses isFile baseDir specifier options resolved.path resolved.found resolved.probes ∧
      (resolved.isLocal ↔ Relative specifier) ∧
      (∀ other : Text → Bool, (∀ path ∈ resolved.probes, other path = isFile path) →
        resolve other baseDir extensions specifier = resolved) ∧
      (resolved.found → Relative resolved.path ∧ specifier <+: resolved.path) := by
  intro resolved
  have chosen : Chooses isFile baseDir specifier (candidates extensions specifier) resolved.path
      resolved.found resolved.probes := resolve_chooses
  have near : resolved.isLocal ↔ Relative specifier := by
    rw [isLocal_resolve]
    exact isLocal_iff specifier
  refine ⟨candidates extensions specifier, offers_iff, chosen, near, ?_, ?_⟩
  · -- Only what was asked for can make a difference.
    intro other agree
    exact resolve_congr agree
  · -- What is found is one of the candidates, and all of these go on from the specifier.
    intro found
    rw [found] at chosen
    have member := (found_spec chosen).1
    exact ⟨(isLocal_iff _).mp (candidate_isLocal member), prefix_of_mem_candidates member⟩

/-- A relative specifier is an option of its own if it has an extension, or if an empty one may be
put behind it. -/
theorem self_mem_candidates_iff {extensions : List Text} {specifier : Text}
    (near : Relative specifier) :
    specifier ∈ candidates extensions specifier ↔
      specifier ≠ "." ∧ ¬("/" : Text) <:+ specifier ∧
        ((∃ root ext, Path.Extends specifier root ext) ∨ [] ∈ extensions) := by
  generalize listed : candidates extensions specifier = options
  -- Whatever has letters behind the specifier differs from it.
  have longer : ∀ {l : Letter} {more ext : Text}, specifier ++ (l :: more) ++ ext ≠ specifier := by
    intro l more ext same
    have lengths := congrArg List.length same
    simp at lengths
  cases (offers_iff options).mpr listed.symm with
  | foreign far => exact absurd near far
  | dot here =>
    have apart : specifier ∉ extensions.map fun ext => ("./index" : Text) ++ ext := by
      rw [List.mem_map, here]
      rintro ⟨ext, _, same⟩
      have lengths := congrArg List.length same
      have size : ("./index" : Text).length = 7 := by decide
      have one : (("." : Text)).length = 1 := by decide
      rw [List.length_append, size, one] at lengths
      omega
    exact ⟨fun member => absurd member apart, fun free => absurd here free.1⟩
  | directory _ slash =>
    have apart : specifier ∉ extensions.map fun ext => specifier ++ "index" ++ ext := by
      rw [List.mem_map]
      rintro ⟨ext, _, same⟩
      exact longer same
    exact ⟨fun member => absurd member apart, fun free => absurd slash free.2.1⟩
  | complete _ open_ extended =>
    have other : specifier ≠ "." := by
      rintro rfl
      have named := (Path.hasExtension_iff ".").mpr extended
      rw [dot_form.2.2] at named
      exact Bool.false_ne_true named
    exact ⟨fun _ => ⟨other, open_, .inl extended⟩, fun _ => List.mem_singleton_self _⟩
  | bare _ other open_ plain =>
    rw [List.mem_append, List.mem_map, List.mem_map]
    constructor
    · rintro (⟨ext, member, same⟩ | ⟨ext, _, same⟩)
      · have empty : ext = [] := List.append_right_eq_self.mp same
        exact ⟨other, open_, .inr (empty ▸ member)⟩
      · exact absurd same longer
    · rintro ⟨_, _, extended | empty⟩
      · exact absurd extended plain
      · exact .inl ⟨[], empty, List.append_nil _⟩

/-- The flag is set only where the answer is a file. It tells whether the answer is a file if and
only if the specifier as written names no file that all options miss; where the specifier is an
option of its own, it always does. -/
theorem found_tells_iff {isFile : Text → Bool} {baseDir : Text} {extensions : List Text}
    {specifier : Text} (near : Relative specifier) :
    let resolved := resolve isFile baseDir extensions specifier
    let isThere (path : Text) : Prop := isFile (Path.join baseDir path)
    (resolved.found → isThere resolved.path) ∧
      ((resolved.found ↔ isThere resolved.path) ↔
        (isThere specifier → ∃ options, Offers extensions specifier options ∧
          ∃ option ∈ options, isThere option)) ∧
      ((specifier ≠ "." ∧ ¬("/" : Text) <:+ specifier ∧
          ((∃ root ext, Path.Extends specifier root ext) ∨ [] ∈ extensions)) →
        (resolved.found ↔ isThere resolved.path)) := by
  intro resolved isThere
  have chosen : Chooses isFile baseDir specifier (candidates extensions specifier) resolved.path
      resolved.found resolved.probes := resolve_chooses
  have sound : resolved.found → isThere resolved.path := by
    intro found
    rw [found] at chosen
    exact (found_spec chosen).2
  -- A set flag is always right; an unset one is wrong where the specifier itself is a file.
  have exact_iff : (resolved.found ↔ isThere resolved.path) ↔
      (isThere specifier → ∃ option ∈ candidates extensions specifier, isThere option) := by
    cases found : resolved.found with
    | true =>
      rw [found] at chosen
      obtain ⟨member, file⟩ := found_spec chosen
      exact ⟨fun _ _ => ⟨_, member, file⟩, fun _ => ⟨fun _ => file, fun _ => rfl⟩⟩
    | false =>
      rw [found] at chosen
      obtain ⟨same, none⟩ := missed_spec chosen
      rw [same]
      constructor
      · intro told file
        exact absurd (told.mpr file) Bool.false_ne_true
      · intro covered
        refine ⟨fun set => absurd set Bool.false_ne_true, fun file => ?_⟩
        obtain ⟨option, member, there⟩ := covered file
        exact absurd ((none option member).symm.trans there) Bool.false_ne_true
  refine ⟨sound, ?_, ?_⟩
  · rw [exact_iff]
    simp only [offers_iff, exists_eq_left]
  · intro own
    exact exact_iff.mpr fun file => ⟨specifier, (self_mem_candidates_iff near).mpr own, file⟩

/-- A specifier with an extension is asked for as it is, so its flag is right. -/
theorem found_tells_iff_data :
    let isFile (path : Text) : Bool := path == "lib/./data.json"
    let resolved := resolve isFile "lib" [".js"] "./data.json"
    Relative "./data.json" ∧ (resolved.found ↔ isFile (Path.join "lib" resolved.path)) := by
  -- The extension is one that the name has, not one of the list.
  intro isFile resolved
  have near : Relative "./data.json" := by decide
  have extended : ∃ root ext, Path.Extends "./data.json" root ext :=
    (Path.hasExtension_iff _).mp (by decide)
  exact ⟨near, (found_tells_iff near).2.2 ⟨by decide, by decide, .inl extended⟩⟩

/-- A file whose name has no extension is kept as the answer, and is said not to be there. -/
theorem found_misses_license :
    let isFile (path : Text) : Bool := path == "./LICENSE"
    let resolved := resolve isFile "" [".js"] "./LICENSE"
    Relative "./LICENSE" ∧ resolved.path = "./LICENSE" ∧ resolved.found = false ∧
      isFile (Path.join "" resolved.path) := by
  decide

end Specifier

end ModuleLift
