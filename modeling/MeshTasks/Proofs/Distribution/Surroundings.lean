import MeshTasks.Proofs.Distribution.Neighborhoods
import MeshTasks.Proofs.Mesh.Decomposition

/-!
# What local items read lies near

The halo neighborhood of a process dilates each local region and carries the
result to the levels next to it. An access with a halo cuts boxes out of the
same surroundings, and carries them in the same way. Both see a level at the
same shifts, so that whatever supplies a cell to a local item on its own level
or one step away has been taken into the neighborhood.
-/

namespace MeshTasks

/-- The reach of a region holds whatever a level at most one step away holds
around or in a cell within the width of the region. -/
private theorem mem_reachOf_of_nested
    {grid : Grid} {width : Coord} {region held : Region} {own target : Level} {steps : Int}
    {reached : List RegionId} {shift : Vec} {needed cell : Cell}
    (indexed : grid.Indexed)
    (ownAt : grid.level? region.level = some own)
    (reachedOk : Placement.reachOf grid width region = .ok reached)
    (near : steps = 0 ∨ steps = -1 ∨ steps = 1)
    (targetAt : grid.levelAt? region.level steps = some target)
    (shifts : target.ShiftsBy shift)
    (inTarget : held ∈ target.regions)
    (inHeld : cell ∈ held.box)
    (within : region.box.Widened (fun _ => width.val) needed)
    (nested : grid.Nested region.level needed target.index (cell.shift shift)) :
    held.id ∈ reached := by
  obtain ⟨position, positionEq, levelAt⟩ := Grid.levelAt?_eq_some_iff.mp targetAt
  have indexEq : target.index = position := indexed position target levelAt
  have nearby : position = region.level ∨ position + 1 = region.level ∨
      position = region.level + 1 := by
    omega
  obtain ⟨reach, carried, touched, dilated, carriedOk, touchedOk, gathered⟩ :=
    exists_touched_of_reachOf reachedOk nearby
  have stepsEq : (position : Int) - region.level = steps := by omega
  have mem_reach : ∀ cell, cell ∈ reach ↔ region.box.Widened (fun _ => width.val) cell :=
    fun cell => Box.mem_iff_widened (Box.dilate_spec dilated)
  have holds : reach.isEmpty = false :=
    Box.isEmpty_eq_false_iff_exists.mpr ⟨needed, (mem_reach needed).mpr within⟩
  rw [stepsEq, ← indexEq] at carriedOk
  obtain ⟨box, rfl, mem_box⟩ := exists_box_of_carryBox indexed ownAt targetAt holds carriedOk
  unfold Placement.touchedAt at touchedOk
  rw [levelAt] at touchedOk
  apply gathered
  apply mem_touchedOn touchedOk shifts inTarget inHeld
  exact (mem_box _).mpr ⟨needed, (mem_reach needed).mpr within, nested⟩

/-- The reach of a region holds whatever supplies a halo around it that is no
wider. -/
private theorem mem_reachOf_of_mem_haloPieces
    {grid : Grid} {halo : Halo} {width : Coord} {region : Region} {target : Level} {steps : Int}
    {pieces : List Piece} {reached : List RegionId} {id : RegionId}
    (indexed : grid.Indexed)
    (regionAt : grid.region? region.id = some region)
    (reachedOk : Placement.reachOf grid width region = .ok reached)
    (near : steps = 0 ∨ steps = -1 ∨ steps = 1)
    (bounded : halo.shape ≠ .domainWide)
    (wide : 0 ≤ halo.width.val)
    (narrow : halo.width.val ≤ width.val)
    (targetAt : grid.levelAt? region.level steps = some target)
    (piecesOk : haloPieces grid halo region target steps = .ok pieces)
    (member : id ∈ pieces.map Piece.region) :
    id ∈ reached := by
  obtain ⟨own, ownAt, inOwn⟩ := Grid.exists_level_of_region? indexed regionAt
  obtain ⟨piece, pieceMember, rfl⟩ := List.mem_map.mp member
  have supplied := suppliedBy_haloPieces indexed ownAt inOwn wide targetAt piecesOk
  obtain ⟨cell, inPiece⟩ :=
    Box.isEmpty_eq_false_iff_exists.mp (supplied.not_empty piece pieceMember)
  obtain ⟨sees, held, inTarget, fromHeld, inHeld, _, needed, _, needs, nested⟩ :=
    (supplied.holding_iff piece.region piece.offset cell).mp ⟨piece, pieceMember, rfl, inPiece⟩
  have within : region.box.Widened (fun _ => width.val) needed := by
    intro axis
    have rimHere := Halo.widened_of_needs bounded wide needs axis
    have reachLe : halo.reach ≤ halo.width.val := by
      unfold Halo.reach
      split <;> omega
    dsimp only at rimHere ⊢
    omega
  rw [← fromHeld]
  exact mem_reachOf_of_nested indexed ownAt reachedOk near targetAt sees.shiftsBy inTarget inHeld
    within nested

/-! ## Accesses -/

/-- A halo reaches no further than a width, and not to the whole level. -/
def Halo.FitsIn (halo : Halo) (width : Coord) : Prop :=
  match halo.shape with
  | .none => True
  | .faceAdjacent | .cornerAdjacent => 0 ≤ halo.width.val ∧ halo.width.val ≤ width.val
  | .domainWide => False

private theorem Halo.FitsIn.bounds
    {halo : Halo} {width : Coord}
    (fits : halo.FitsIn width) :
    halo.shape = .none ∨
      halo.shape ≠ .domainWide ∧ 0 ≤ halo.width.val ∧ halo.width.val ≤ width.val := by
  unfold FitsIn at fits
  cases shape : halo.shape with
  | none => exact Or.inl rfl
  | faceAdjacent => exact Or.inr ⟨nofun, by simpa [shape] using fits⟩
  | cornerAdjacent => exact Or.inr ⟨nofun, by simpa [shape] using fits⟩
  | domainWide => simp [shape] at fits

/-- Of a halo without a shape the width does not matter. -/
private theorem haloPieces_of_none
    {grid : Grid} {halo : Halo} {region : Region} {target : Level} {steps : Int}
    (shapeless : halo.shape = .none) :
    haloPieces grid halo region target steps = haloPieces grid .none region target steps := by
  unfold haloPieces Halo.boxes Halo.isGhosted
  rw [shapeless]
  rfl

private theorem Access.near_of_adjacent
    {access : Access}
    (adjacent : access.domain = .regionBound ∨ access.domain = .coarserLevel 1 ∨
      access.domain = .finerLevel 1) :
    access.domain ≠ .wholeDomain ∧
      (access.domain.levelOffset = 0 ∨ access.domain.levelOffset = -1 ∨
        access.domain.levelOffset = 1) := by
  rcases adjacent with domain | domain | domain <;> simp [domain, Domain.levelOffset]

section

variable {grid : Grid} {width : Coord} {access : Access}
variable
  (indexed : grid.Indexed)
  (wide : 0 ≤ width.val)
  (adjacent : access.domain = .regionBound ∨ access.domain = .coarserLevel 1 ∨
    access.domain = .finerLevel 1)
  (fits : access.halo.FitsIn width)

include indexed wide adjacent fits

private theorem mem_reachOf_of_mem_piecesFor
    {unit : WorkUnit} {region : Region} {reached : List RegionId} {pieces : List Piece}
    {id : RegionId}
    (regionAt : grid.region? region.id = some region)
    (reachedOk : Placement.reachOf grid width region = .ok reached)
    (piecesOk : piecesFor grid unit access region.id = .ok pieces)
    (member : id ∈ pieces.map Piece.region) :
    id ∈ reached := by
  obtain ⟨regional, near⟩ := Access.near_of_adjacent adjacent
  obtain ⟨other, level, sameId, otherAt, levelAt, needs⟩ :=
    exists_level_of_piecesFor regional piecesOk
  rw [sameId, regionAt] at otherAt
  cases otherAt
  rcases needs with ⟨_, _, rfl⟩ | gathered
  · rw [List.map_singleton, List.mem_singleton] at member
    exact member ▸ mem_reachOf_self reachedOk
  · rcases fits.bounds with shapeless | ⟨bounded, atLeast, atMost⟩
    · rw [haloPieces_of_none shapeless] at gathered
      exact mem_reachOf_of_mem_haloPieces indexed regionAt reachedOk near (by decide)
        (Int.le_refl _) wide levelAt gathered member
    · exact mem_reachOf_of_mem_haloPieces indexed regionAt reachedOk near bounded atLeast atMost
        levelAt gathered member

/-- Everything that an item of local regions reads within the width of the halo
neighborhood, on its own level or on one next to it, lies in that
neighborhood. -/
theorem isNear_of_mem_targets
    {process : ProcessId} {owners : OwnerTable} {placement : Placement} {item : WorkItem}
    {unit : WorkUnit} {found : List Target}
    (placed : Placement.withinHalo grid process owners width = .ok placement)
    (owned : ∀ id ∈ item.regions, owners.lookup id = some process)
    (notReduction : access.label.isReduction = false)
    (foundOk : targets grid item unit access = .ok found) :
    ∀ target ∈ found, ∀ id, target.region? = some id → placement.isNear id = true := by
  intro target member id regionEq
  have regional := (Access.near_of_adjacent adjacent).1
  by_cases unplaced : item.regions = []
  · rw [targets_of_no_regions notReduction regional unplaced] at foundOk
    cases foundOk
    split at member
    · rw [List.mem_singleton.mp member] at regionEq
      cases regionEq
    · cases member
  · obtain ⟨pieces, piecesOk, rfl⟩ := (targets_eq_ok_iff notReduction unplaced).mp foundOk
    obtain ⟨bound, inItem, _, held, heldOk, inHeld⟩ :=
      (mem_map_region?_targets piecesOk).mp ⟨target, member, regionEq⟩
    obtain ⟨region, _, rfl, regionAt, _, _⟩ := exists_level_of_piecesFor regional heldOk
    obtain ⟨reached, reachedOk, near⟩ :=
      Placement.exists_reach_of_withinHalo placed regionAt (owned region.id inItem)
    exact near id (mem_reachOf_of_mem_piecesFor indexed wide adjacent fits regionAt reachedOk
      heldOk inHeld)

end

/-! ## A cube above one end of the ring -/

namespace Row

/-- The first process owns a fine cube above one end of the ring, the second
owns all the rest. -/
def apart : OwnerTable := [(⟨0⟩, ⟨1⟩), (⟨1⟩, ⟨1⟩), (⟨2⟩, ⟨0⟩), (⟨3⟩, ⟨1⟩)]

def onEnd : WorkItem := { onLeft with regions := [⟨2⟩] }

/-- What the cube reads beneath it; the ring leads on to its other end. -/
def underEnd : List Target := [
  .part ⟨⟨0⟩, ⟨.zero, .splat two⟩, .zero⟩,
  .part ⟨⟨1⟩, ⟨⟨.clamp 7, .zero, .zero⟩, ⟨eight, .one, .one⟩⟩, before⟩]

end Row

theorem isNear_of_mem_targets_under_end :
    ∃ placement,
      Placement.withinHalo Row.steppedGrid ⟨0⟩ Row.apart .one = .ok placement ∧
        targets Row.steppedGrid Row.onEnd (Row.unit "relax" [⟨2⟩]) Row.beneath =
            .ok Row.underEnd ∧
          placement.isNear ⟨1⟩ = true := by
  obtain ⟨placement, placed⟩ :
      ∃ placement, Placement.withinHalo Row.steppedGrid ⟨0⟩ Row.apart .one = .ok placement :=
    ⟨_, rfl⟩
  have computed :
      targets Row.steppedGrid Row.onEnd (Row.unit "relax" [⟨2⟩]) Row.beneath =
        .ok Row.underEnd := rfl
  have indexed : Row.steppedGrid.Indexed := Grid.indexed_iff.mpr rfl
  have fits : Row.beneath.halo.FitsIn .one := ⟨by decide, by decide⟩
  have owned : ∀ id ∈ Row.onEnd.regions, Row.apart.lookup id = some ⟨0⟩ := by decide
  refine ⟨placement, placed, computed, ?_⟩
  exact isNear_of_mem_targets indexed (by decide) (Or.inr (Or.inl rfl)) fits placed owned rfl
    computed _ (List.mem_cons_of_mem _ List.mem_cons_self) ⟨1⟩ rfl

end MeshTasks
