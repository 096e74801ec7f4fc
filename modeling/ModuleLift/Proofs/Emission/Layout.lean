import ModuleLift.Proofs.Emission.Insertion

/-! Where the pieces of a program are written: those that stand for one region together make a
block, and what stands between the blocks in the source stays. -/

namespace ModuleLift.Emission

/-- Pieces that stand for one region together: the last for all of it, those before it are put in
where it starts. -/
inductive Fills (region : Region) : List Piece → Prop where
  | last {piece : Piece} (whole : piece.region = region) (stays : piece.inserted = false) :
      Fills region [piece]
  | cons {piece : Piece} {rest : List Piece} (opens : piece.region = ⟨region.start, region.start⟩)
      (added : piece.inserted = true) (more : Fills region rest) : Fills region (piece :: rest)

/-- There is a piece for every region. -/
theorem Fills.ne_nil {region : Region} {pieces : List Piece} (fills : Fills region pieces) :
    pieces ≠ [] := by
  cases fills <;> simp

/-- Pieces put in where a region starts fill it together with those that fill it. -/
theorem Fills.append {region : Region} {opening pieces : List Piece}
    (opens : ∀ piece ∈ opening, piece.region = ⟨region.start, region.start⟩ ∧ piece.inserted)
    (fills : Fills region pieces) : Fills region (opening ++ pieces) := by
  -- Each piece put in takes no room, so the rest starts where it did.
  induction opening with
  | nil => exact fills
  | cons piece rest ih =>
    obtain ⟨starts, added⟩ := opens piece List.mem_cons_self
    exact .cons starts added (ih fun other member => opens other (List.mem_cons_of_mem _ member))

/-- Texts joined by something are each followed by it, up to the last. -/
theorem joined_append (between : Text) (opening : List Text) {texts : List Text}
    (some : texts ≠ []) :
    Text.joined between (opening ++ texts) =
      opening.flatMap (· ++ between) ++ Text.joined between texts := by
  -- There is always a next text, so each of the first ones is followed by the joint.
  induction opening with
  | nil => rfl
  | cons text rest ih =>
    have more : rest ++ texts ≠ [] := by simp [some]
    obtain ⟨next, later, split⟩ := List.exists_cons_of_ne_nil more
    rw [List.cons_append, List.flatMap_cons, List.append_assoc, ← ih, split]
    simp [Text.joined]

/-- Pieces that fill a region are written one to a line, and what follows the region comes after
them. -/
theorem compose_fills {source : Source} {region : Region} {pieces : List Piece}
    (fills : Fills region pieces) (forward : region.start ≤ region.stop) {cursor : Nat}
    (after : cursor ≤ region.start) (due : Bool) (rest : List Piece) :
    compose source cursor due (pieces ++ rest) =
      afterBreak due (slice source cursor region.start) ++
        Text.joined "\n" (pieces.map (·.text)) ++ compose source region.stop false rest := by
  -- The pieces behind the region are left open, so that blocks can follow one another.
  induction fills generalizing cursor due with
  | last whole stays =>
    have moved : max cursor region.stop = region.stop := by omega
    simp [compose, whole, stays, moved, Text.joined]
  | @cons piece later opens added more ih =>
    have moved : max cursor region.start = region.start := by omega
    -- The cursor stands where the region starts, so only the line break comes between.
    have gap : afterBreak true (slice source region.start region.start) = "\n" := by
      rw [slice_self]
      decide
    have texts : later.map (·.text) ≠ [] := by simp [more.ne_nil]
    rw [List.cons_append, compose, opens, added, moved, ih (Nat.le_refl _), gap, List.map_cons]
    have joined := joined_append "\n" [piece.text] texts
    simp only [List.singleton_append, List.flatMap_singleton] at joined
    rw [joined]
    simp only [List.append_assoc]

/-- Blocks of texts in the places of their regions, with the source before, between and after
them. -/
def blocksText (source : Source) (cursor : Nat) : List (Region × List Text) → Text
  | [] => slice source cursor source.size
  | (region, texts) :: rest =>
    slice source cursor region.start ++ Text.joined "\n" texts ++
      blocksText source region.stop rest

/-- Blocks of texts in the places of their regions, and texts that come right before the first
block, each on a line. -/
def layout (source : Source) (opening : List Text) : List (Region × List Text) → Text
  | [] => source.toList
  | (region, texts) :: rest =>
    slice source 0 region.start ++ opening.flatMap (fun text => text ++ ("\n" : Text)) ++
      Text.joined "\n" texts ++ blocksText source region.stop rest

/-- Regions that stand in a text one after the other. -/
structure InOrder (regions : List Region) : Prop where
  forward : ∀ region ∈ regions, region.start ≤ region.stop
  ordered : regions.Pairwise fun first second => first.stop ≤ second.start

/-- Pieces that fill regions one after the other are written in their places. -/
theorem compose_blocks {source : Source} {blocks : List (Region × List Piece)} {cursor : Nat}
    (fills : ∀ block ∈ blocks, Fills block.1 block.2) (inOrder : InOrder (blocks.map (·.1)))
    (after : ∀ block ∈ blocks, cursor ≤ block.1.start) :
    compose source cursor false (blocks.flatMap (·.2)) =
      blocksText source cursor (blocks.map fun block => (block.1, block.2.map (·.text))) := by
  -- Behind a block the cursor stands at its end, before all later blocks.
  induction blocks generalizing cursor with
  | nil => rfl
  | cons block rest ih =>
    obtain ⟨forward, ordered⟩ := inOrder
    rw [List.map_cons] at forward ordered
    rw [List.pairwise_cons] at ordered
    have later : InOrder (rest.map (·.1)) :=
      ⟨fun region member => forward region (List.mem_cons_of_mem _ member), ordered.2⟩
    have ends : ∀ other ∈ rest, block.1.stop ≤ other.1.start := fun other member =>
      ordered.1 other.1 (List.mem_map_of_mem member)
    rw [List.flatMap_cons, compose_fills (fills block List.mem_cons_self)
      (forward block.1 List.mem_cons_self) (after block List.mem_cons_self), List.map_cons,
      blocksText,
      ih (fun other member => fills other (List.mem_cons_of_mem _ member)) later ends]
    rfl

/-- Pieces that fill regions one after the other, and pieces put in where the first of them
starts, are written in their places. -/
theorem compose_layout {source : Source} {opening : List Piece}
    {blocks : List (Region × List Piece)} (fills : ∀ block ∈ blocks, Fills block.1 block.2)
    (inOrder : InOrder (blocks.map (·.1)))
    (opens : ∀ piece ∈ opening, ∃ block ∈ blocks.head?,
      piece.region = ⟨block.1.start, block.1.start⟩ ∧ piece.inserted) :
    compose source 0 false (opening ++ blocks.flatMap (·.2)) =
      layout source (opening.map (·.text))
        (blocks.map fun block => (block.1, block.2.map (·.text))) := by
  cases blocks with
  -- Without a block there is no place where anything could be put in.
  | nil =>
    have none : opening = [] := List.eq_nil_iff_forall_not_mem.mpr fun piece member => by
      obtain ⟨block, found, _⟩ := opens piece member
      simp at found
    subst none
    exact slice_all source
  | cons block rest =>
    have first := fills block List.mem_cons_self
    have together : Fills block.1 (opening ++ block.2) := first.append fun piece member => by
      obtain ⟨other, found, placed⟩ := opens piece member
      rw [List.head?_cons, Option.mem_def, Option.some.injEq] at found
      subst found
      exact placed
    -- The opening joins the first block, and the other blocks go on as without it.
    have whole := @compose_blocks source ((block.1, opening ++ block.2) :: rest) 0
      (List.forall_mem_cons.mpr
        ⟨together, fun other member => fills other (List.mem_cons_of_mem _ member)⟩)
      inOrder (fun _ _ => Nat.zero_le _)
    have texts : block.2.map (·.text) ≠ [] := by simp [first.ne_nil]
    rw [List.flatMap_cons] at whole ⊢
    rw [← List.append_assoc, whole, List.map_cons, List.map_cons, blocksText, layout,
      List.map_append, joined_append _ _ texts]
    simp only [List.append_assoc]

end ModuleLift.Emission
