import Mathlib.Data.List.Nodup
import MeshTasks.Placement
import MeshTasks.Proofs.Mesh.Pieces

/-!
# What lies within reach

A box adjoins another within a width if it shares a cell with what lies around
an image of the other. This relation does not tell the two boxes apart, because
the images of a level lie opposite to each other. All targets of an access with
a halo adjoin its region, and the halo neighborhood holds all that adjoins a
local region. So it holds what a local item asks for, and also whoever asks for
what is local.
-/

namespace MeshTasks

namespace Level

/-- The second box shares a cell with what lies within a width of some image of
the first. -/
def Adjoins (level : Level) (width : Coord) (left right : Box) : Prop :=
  ∃ shift, level.ShiftsBy shift ∧
    ∀ axis,
      (left.low.get axis).val - width.val - (shift.get axis).val < (right.high.get axis).val ∧
        (right.low.get axis).val < (left.high.get axis).val + width.val - (shift.get axis).val

theorem Adjoins.symm
    {level : Level} {width : Coord} {left right : Box}
    (adjoins : level.Adjoins width left right) :
    level.Adjoins width right left := by
  obtain ⟨shift, shifts, close⟩ := adjoins
  obtain ⟨opposite, shiftsBack, oppositeEq⟩ := shifts.exists_opposite
  refine ⟨opposite, shiftsBack, fun axis => ?_⟩
  have closeHere := close axis
  have oppositeHere := oppositeEq axis
  omega

end Level

/-! ## The targets of a halo -/

section

variable {level : Level} {width : Coord} {around : Box}

/-- A region that supplies a box within a width around another adjoins that
one. -/
private theorem adjoins_of_supplies
    {piece : Piece} {needed : Box} {held : Region}
    (within : ∀ axis,
      (around.low.get axis).val - width.val ≤ (needed.low.get axis).val ∧
        (needed.high.get axis).val ≤ (around.high.get axis).val + width.val)
    (shifts : level.ShiftsBy piece.offset)
    (supplies : piece.Supplies level needed held) :
    level.Adjoins width around held.box := by
  refine ⟨piece.offset, shifts, fun axis => ?_⟩
  have sharesHere := supplies.is_part.shares axis
  have withinHere := within axis
  omega

/-- A box of a halo is the whole domain, or it surrounds the box that the halo
is around and stays within its width. -/
theorem bounds_of_mem_boxes
    {halo : Halo} {domain box needed : Box} {boxes : List Box}
    (wide : 0 ≤ halo.width.val)
    (boxesOk : halo.boxes domain box = .ok boxes)
    (member : needed ∈ boxes) :
    (halo.shape = .domainWide ∧ needed = domain) ∨
      ∀ axis,
        ((box.low.get axis).val - halo.width.val ≤ (needed.low.get axis).val ∧
          (needed.low.get axis).val ≤ (box.low.get axis).val) ∧
        (box.high.get axis).val ≤ (needed.high.get axis).val ∧
          (needed.high.get axis).val ≤ (box.high.get axis).val + halo.width.val := by
  unfold Halo.boxes at boxesOk
  cases shape : halo.shape with
  | none =>
      rw [shape] at boxesOk
      cases boxesOk
      rw [List.mem_singleton.mp member]
      exact Or.inr fun axis => by omega
  | faceAdjacent =>
      rw [shape] at boxesOk
      obtain ⟨dilatedAxis, _, dilated⟩ := exists_of_mem_mapM boxesOk member
      refine Or.inr fun axis => ?_
      have spec := Box.dilateAxis_spec dilated axis
      split at spec <;> omega
  | cornerAdjacent =>
      rw [shape] at boxesOk
      obtain ⟨dilated, dilatedOk, assembled⟩ := bind_eq_ok_iff.mp boxesOk
      cases assembled
      rw [List.mem_singleton.mp member]
      refine Or.inr fun axis => ?_
      have spec := Box.dilate_spec dilatedOk axis
      omega
  | domainWide =>
      rw [shape] at boxesOk
      cases boxesOk
      exact Or.inl ⟨rfl, List.mem_singleton.mp member⟩

/-- The boxes of a halo stay within its width, unless it is the whole level. -/
private theorem within_of_mem_boxes
    {halo : Halo} {domain box needed : Box} {boxes : List Box}
    (bounded : halo.shape ≠ .domainWide)
    (wide : 0 ≤ halo.width.val)
    (boxesOk : halo.boxes domain box = .ok boxes)
    (member : needed ∈ boxes)
    (axis : Axis) :
    (box.low.get axis).val - halo.width.val ≤ (needed.low.get axis).val ∧
      (needed.high.get axis).val ≤ (box.high.get axis).val + halo.width.val := by
  rcases bounds_of_mem_boxes wide boxesOk member with ⟨shape, _⟩ | bounds
  · exact absurd shape bounded
  · exact ⟨(bounds axis).1.1, (bounds axis).2.2⟩

end

namespace Level

theorem Adjoins.mono
    {level : Level} {narrow width : Coord} {left right : Box}
    (adjoins : level.Adjoins narrow left right)
    (narrower : narrow.val ≤ width.val) :
    level.Adjoins width left right := by
  obtain ⟨shift, shifts, close⟩ := adjoins
  refine ⟨shift, shifts, fun axis => ?_⟩
  have closeHere := close axis
  omega

end Level

private theorem pos_of_isGhosted
    {halo : Halo}
    (bounded : halo.shape ≠ .domainWide)
    (ghosted : halo.isGhosted = true) :
    0 < halo.width.val := by
  unfold Halo.isGhosted at ghosted
  cases shape : halo.shape with
  | none =>
      rw [shape] at ghosted
      cases ghosted
  | faceAdjacent =>
      rw [shape] at ghosted
      exact Coord.lt_iff.mp (of_decide_eq_true ghosted)
  | cornerAdjacent =>
      rw [shape] at ghosted
      exact Coord.lt_iff.mp (of_decide_eq_true ghosted)
  | domainWide => exact absurd shape bounded

/-- A halo reaches regions that adjoin its own within its width. -/
private theorem adjoins_of_mem_haloPieces
    {grid : Grid} {halo : Halo} {region : Region} {target : Level} {pieces : List Piece}
    {id : RegionId}
    (bounded : halo.shape ≠ .domainWide)
    (ghosted : halo.isGhosted = true)
    (piecesOk : haloPieces grid halo region target 0 = .ok pieces)
    (member : id ∈ pieces.map Piece.region) :
    ∃ other ∈ target.regions, other.id = id ∧
      target.Adjoins halo.width region.box other.box := by
  obtain ⟨boxes, parts, boxesOk, partsOk, rfl⟩ := haloPieces_zero_eq_ok_iff.mp piecesOk
  obtain ⟨piece, pieceMember, rfl⟩ := List.mem_map.mp member
  obtain ⟨part, partMember, inPart⟩ := List.mem_flatten.mp pieceMember
  obtain ⟨needed, neededMember, partOk⟩ := exists_of_mem_mapM partsOk partMember
  rw [if_pos ghosted] at partOk
  obtain ⟨shifts, held, supplies⟩ := (mem_piecesWithImages_iff partOk).mp inPart
  have wide : 0 ≤ halo.width.val := Int.le_of_lt (pos_of_isGhosted bounded ghosted)
  exact ⟨held, supplies.on_level, supplies.region_eq.symm,
    adjoins_of_supplies (within_of_mem_boxes bounded wide boxesOk neededMember) shifts supplies⟩

/-! ## The reach of a region -/

/-- A box touches whatever holds a cell that, moved by a shift of the level,
lies in the box. -/
theorem mem_touchedOn
    {level : Level} {box : Box} {touched : List RegionId} {held : Region} {shift : Vec}
    {cell : Cell}
    (touchedOk : Placement.touchedOn level box = .ok touched)
    (shifts : level.ShiftsBy shift)
    (inLevel : held ∈ level.regions)
    (inHeld : cell ∈ held.box)
    (inBox : cell.shift shift ∈ box) :
    held.id ∈ touched := by
  obtain ⟨all, allOk, rest⟩ := bind_eq_ok_iff.mp touchedOk
  obtain ⟨images, imagesOk, assembled⟩ := bind_eq_ok_iff.mp rest
  cases assembled
  have inImage : ∃ image ∈ box :: images, cell ∈ image := by
    rcases shifts with rfl | ⟨found, foundOk, shiftMember⟩
    · exact ⟨box, List.mem_cons_self, by rwa [Cell.shift_zero] at inBox⟩
    · rw [allOk] at foundOk
      cases foundOk
      obtain ⟨image, imageMember, imageOk⟩ := mapM_result_of_mem imagesOk shiftMember
      obtain ⟨back, backOk, moved⟩ := bind_eq_ok_iff.mp imageOk
      refine ⟨image, List.mem_cons_of_mem _ imageMember, Box.mem_iff_get.mpr fun axis => ?_⟩
      have inBoxHere := Box.mem_iff_get.mp inBox axis
      have movedHere := Box.translate_spec moved axis
      rw [Cell.get_shift] at inBoxHere
      rw [Vec.get_neg backOk] at movedHere
      omega
  obtain ⟨image, imageMember, inImage⟩ := inImage
  refine List.mem_flatMap.mpr ⟨image, imageMember, List.mem_map.mpr ⟨held, ?_, rfl⟩⟩
  exact Level.mem_selectOverlapping.mpr
    ⟨inLevel, Box.overlaps_iff_exists_mem.mpr ⟨_, inHeld, inImage⟩⟩

/-- What adjoins a box is touched by the dilated box. -/
private theorem touches_of_adjoins
    {level : Level} {width : Coord} {around reach : Box} {touched : List RegionId}
    {region : Region}
    (touchedOk : Placement.touchedOn level reach = .ok touched)
    (wide : 0 ≤ width.val)
    (dilated : around.dilate width = .ok reach)
    (holds : around.isEmpty = false)
    (inLevel : region ∈ level.regions)
    (adjoins : level.Adjoins width around region.box) :
    region.id ∈ touched := by
  obtain ⟨shift, shifts, close⟩ := adjoins
  -- The first cell that the region shares with the dilated box.
  obtain ⟨cell, cellEq⟩ := Cell.exists_get_eq fun axis =>
    max (region.box.low.get axis).val ((reach.low.get axis).val - (shift.get axis).val)
  have regionHolds := level.coherent.not_empty region inLevel
  have within : ∀ axis,
      ((region.box.low.get axis).val ≤ cell.get axis ∧
          cell.get axis < (region.box.high.get axis).val) ∧
        (reach.low.get axis).val ≤ cell.get axis + (shift.get axis).val ∧
          cell.get axis + (shift.get axis).val < (reach.high.get axis).val := by
    intro axis
    have aroundHere := Box.isEmpty_eq_false_iff_get.mp holds axis
    have regionHere := Box.isEmpty_eq_false_iff_get.mp regionHolds axis
    have reachHere := Box.dilate_spec dilated axis
    have closeHere := close axis
    rw [cellEq]
    omega
  have inRegion : cell ∈ region.box := Box.mem_iff_get.mpr fun axis => (within axis).1
  have inReach : cell.shift shift ∈ reach := by
    simp only [Box.mem_iff_get, Cell.get_shift]
    exact fun axis => (within axis).2
  exact mem_touchedOn touchedOk shifts inLevel inRegion inReach

/-- What the reach of a region is made of. -/
private theorem reachOf_eq_ok
    {grid : Grid} {width : Coord} {region : Region} {reached : List RegionId}
    (reachedOk : Placement.reachOf grid width region = .ok reached) :
    ∃ reach coarseReach fineReach onLevel coarser finer,
      region.box.dilate width = .ok reach ∧
        Placement.touchedAt grid region.level (some reach) = .ok onLevel ∧
          (region.level ≠ 0 →
            grid.coarsenBox reach region.level (region.level - 1) = .ok coarseReach) ∧
            Placement.touchedAt grid (region.level - 1) coarseReach = .ok coarser ∧
              grid.refineBox reach region.level (region.level + 1) = .ok fineReach ∧
                Placement.touchedAt grid (region.level + 1) fineReach = .ok finer ∧
                  reached = region.id :: onLevel ++ coarser ++ finer := by
  obtain ⟨reach, dilated, rest⟩ := bind_eq_ok_iff.mp reachedOk
  obtain ⟨onLevel, onLevelOk, rest⟩ := bind_eq_ok_iff.mp rest
  have further :
      ∀ coarseReach : Option Box,
        (do
          let coarser ← Placement.touchedAt grid (region.level - 1) coarseReach
          let above ← Placement.nextPosition region.level
          let fineReach ← grid.refineBox reach region.level above
          let finer ← Placement.touchedAt grid above fineReach
          return region.id :: onLevel ++ coarser ++ finer) = Except.ok reached →
        ∃ fineReach coarser finer,
          Placement.touchedAt grid (region.level - 1) coarseReach = .ok coarser ∧
            grid.refineBox reach region.level (region.level + 1) = .ok fineReach ∧
              Placement.touchedAt grid (region.level + 1) fineReach = .ok finer ∧
                reached = region.id :: onLevel ++ coarser ++ finer := by
    intro coarseReach outcome
    obtain ⟨coarser, coarserOk, rest⟩ := bind_eq_ok_iff.mp outcome
    obtain ⟨above, aboveOk, rest⟩ := bind_eq_ok_iff.mp rest
    unfold Placement.nextPosition at aboveOk
    split at aboveOk
    · cases aboveOk
      obtain ⟨fineReach, fineOk, rest⟩ := bind_eq_ok_iff.mp rest
      obtain ⟨finer, finerOk, assembled⟩ := bind_eq_ok_iff.mp rest
      cases assembled
      exact ⟨fineReach, coarser, finer, coarserOk, fineOk, finerOk, rfl⟩
    · cases aboveOk
  dsimp only at rest
  by_cases coarsest : region.level = 0
  · rw [if_pos coarsest] at rest
    obtain ⟨fineReach, coarser, finer, parts⟩ := further none rest
    exact ⟨reach, none, fineReach, onLevel, coarser, finer, dilated, onLevelOk,
      fun notCoarsest => absurd coarsest notCoarsest, parts⟩
  · rw [if_neg coarsest] at rest
    obtain ⟨coarseReach, coarseOk, rest⟩ := bind_eq_ok_iff.mp rest
    obtain ⟨fineReach, coarser, finer, parts⟩ := further coarseReach rest
    exact ⟨reach, coarseReach, fineReach, onLevel, coarser, finer, dilated, onLevelOk,
      fun _ => coarseOk, parts⟩

theorem mem_reachOf_self
    {grid : Grid} {width : Coord} {region : Region} {reached : List RegionId}
    (reachedOk : Placement.reachOf grid width region = .ok reached) :
    region.id ∈ reached := by
  obtain ⟨_, _, _, _, _, _, _, _, _, _, _, _, rfl⟩ := reachOf_eq_ok reachedOk
  simp

/-- The reach of a region holds what its dilated box touches, carried to a level
next to its own or left where it is. -/
theorem exists_touched_of_reachOf
    {grid : Grid} {width : Coord} {region : Region} {reached : List RegionId} {position : Nat}
    (reachedOk : Placement.reachOf grid width region = .ok reached)
    (near : position = region.level ∨ position + 1 = region.level ∨ position = region.level + 1) :
    ∃ reach carried touched, region.box.dilate width = .ok reach ∧
      carryBox grid reach region.level position (position - region.level) = .ok carried ∧
        Placement.touchedAt grid position carried = .ok touched ∧ touched ⊆ reached := by
  obtain ⟨reach, coarseReach, fineReach, onLevel, coarser, finer, dilated, onLevelOk, coarseOk,
    coarserOk, fineOk, finerOk, rfl⟩ := reachOf_eq_ok reachedOk
  rcases near with here | beneath | above
  · subst here
    exact ⟨reach, some reach, onLevel, dilated, if_pos (Int.sub_self _), onLevelOk, by simp⟩
  · obtain rfl : position = region.level - 1 := by omega
    refine ⟨reach, coarseReach, coarser, dilated, ?_, coarserOk, fun id member => by simp [member]⟩
    rw [carryBox, if_neg (by omega), if_pos (by omega)]
    exact coarseOk (by omega)
  · subst above
    refine ⟨reach, fineReach, finer, dilated, ?_, finerOk, fun id member => by simp [member]⟩
    rw [carryBox, if_neg (by omega), if_neg (by omega)]
    exact fineOk

/-- The reach of a region holds all that adjoins the region on its level. -/
theorem mem_reachOf
    {grid : Grid} {width : Coord} {region other : Region} {level : Level}
    {reached : List RegionId}
    (reachedOk : Placement.reachOf grid width region = .ok reached)
    (wide : 0 ≤ width.val)
    (levelAt : grid.level? region.level = some level)
    (inLevel : region ∈ level.regions)
    (otherInLevel : other ∈ level.regions)
    (adjoins : level.Adjoins width region.box other.box) :
    other.id ∈ reached := by
  obtain ⟨reach, carried, touched, dilated, carriedOk, touchedOk, within⟩ :=
    exists_touched_of_reachOf reachedOk (Or.inl rfl)
  rw [carryBox, if_pos (Int.sub_self _)] at carriedOk
  cases carriedOk
  unfold Placement.touchedAt at touchedOk
  rw [levelAt] at touchedOk
  exact within (touches_of_adjoins touchedOk wide dilated
    (level.coherent.not_empty region inLevel) otherInLevel adjoins)

/-! ## Regions within reach of each other -/

namespace Grid

/-- The levels of a grid bear the numbers of their positions. -/
def Indexed (grid : Grid) : Prop :=
  ∀ position level, grid.level? position = some level → level.index = position

/-- Two regions are the same one, or adjoin on their level. -/
def Reaches (grid : Grid) (width : Coord) (first second : RegionId) : Prop :=
  first = second ∨ ∃ region other level, grid.region? first = some region ∧
    grid.region? second = some other ∧ grid.level? region.level = some level ∧
      region ∈ level.regions ∧ other ∈ level.regions ∧
        level.Adjoins width region.box other.box

variable {grid : Grid} {width : Coord}

theorem indexed_iff :
    grid.Indexed ↔ grid.levels.map Level.index = List.range grid.levels.length := by
  constructor
  · intro indexed
    refine List.ext_getElem (by simp) fun position bound _ => ?_
    rw [List.length_map] at bound
    rw [List.getElem_map, List.getElem_range]
    exact indexed position _ (List.getElem?_eq_getElem bound)
  · intro numbered position level levelAt
    obtain ⟨bound, rfl⟩ := List.getElem?_eq_some_iff.mp levelAt
    have mapped := congrArg (fun indices => indices[position]?) numbered
    simpa [bound] using mapped

theorem region?_eq_some_iff {id : RegionId} {region : Region} :
    grid.region? id = some region ↔ region ∈ grid.regions ∧ region.id = id := by
  constructor
  · intro found
    exact ⟨List.mem_of_find?_eq_some found, id_of_region?_eq_some found⟩
  · intro both
    obtain ⟨member, rfl⟩ := both
    cases found : grid.region? region.id with
    | none =>
        have notHere := List.find?_eq_none.mp found region member
        exact absurd (decide_eq_true rfl) notHere
    | some other =>
        have sameId := id_of_region?_eq_some found
        have otherMember := List.mem_of_find?_eq_some found
        have same := List.inj_on_of_nodup_map grid.distinct otherMember member sameId
        rw [same]

/-- A region of a level of the grid is found by its number. -/
theorem region?_of_mem_level
    {position : Nat} {level : Level} {region : Region}
    (levelAt : grid.level? position = some level)
    (member : region ∈ level.regions) :
    grid.region? region.id = some region := by
  refine region?_eq_some_iff.mpr ⟨List.mem_flatMap.mpr ⟨level, ?_, member⟩, rfl⟩
  exact List.mem_of_getElem? levelAt

/-- Regions of one level are told apart by their numbers. -/
theorem eq_of_id_eq
    {position : Nat} {level : Level} {first second : Region}
    (levelAt : grid.level? position = some level)
    (firstMember : first ∈ level.regions)
    (secondMember : second ∈ level.regions)
    (same : first.id = second.id) :
    first = second := by
  have firstAt := region?_of_mem_level levelAt firstMember
  rw [same, region?_of_mem_level levelAt secondMember] at firstAt
  exact (Option.some.inj firstAt).symm

theorem levelAt?_zero (position : Nat) : grid.levelAt? position 0 = grid.level? position := by
  unfold levelAt?
  rw [Int.add_zero, if_neg (Int.not_lt.mpr (Int.natCast_nonneg _)), Int.toNat_natCast]

theorem exists_level_of_region?
    {id : RegionId} {region : Region}
    (indexed : grid.Indexed)
    (found : grid.region? id = some region) :
    ∃ level, grid.level? region.level = some level ∧ region ∈ level.regions := by
  obtain ⟨level, levelMember, inLevel⟩ := List.mem_flatMap.mp (region?_eq_some_iff.mp found).1
  obtain ⟨position, levelAt⟩ := List.mem_iff_getElem?.mp levelMember
  have index := indexed position level levelAt
  have onLevel := level.coherent.on_level region inLevel
  rw [onLevel, index]
  exact ⟨level, levelAt, inLevel⟩

theorem Reaches.symm
    {first second : RegionId}
    (reaches : grid.Reaches width first second) :
    grid.Reaches width second first := by
  rcases reaches with rfl | ⟨region, other, level, regionAt, otherAt, levelAt, inLevel, otherIn,
    adjoins⟩
  · exact Or.inl rfl
  · have sameLevel : other.level = region.level := by
      rw [level.coherent.on_level region inLevel, level.coherent.on_level other otherIn]
    exact Or.inr ⟨other, region, level, otherAt, regionAt, sameLevel ▸ levelAt, otherIn, inLevel,
      adjoins.symm⟩

end Grid

/-- For a bound region an access needs what its halo needs, or just the
region. -/
theorem piecesFor_of_bound
    {grid : Grid} {unit : WorkUnit} {access : Access} {bound : RegionId} {region : Region}
    {level : Level}
    (regionAt : grid.region? bound = some region)
    (levelAt : grid.level? region.level = some level)
    (toBound : access.domain = .regionBound) :
    piecesFor grid unit access bound =
      if access.halo.isGhosted = true then
        orArithmetic (haloPieces grid access.halo region level 0)
      else
        .ok [⟨region.id, region.box, .zero⟩] := by
  have levelHere : grid.levelAt? region.level 0 = some level :=
    (Grid.levelAt?_zero _).trans levelAt
  unfold piecesFor
  rw [regionAt]
  dsimp only
  unfold piecesOf
  rw [toBound]
  dsimp only [Domain.levelOffset]
  rw [levelHere]
  dsimp only
  rw [if_neg nofun]
  by_cases ghosted : access.halo.isGhosted = true
  · rw [if_neg fun both => both.2 ghosted, if_pos ghosted]
  · rw [if_pos ⟨rfl, ghosted⟩, if_neg ghosted]

/-- The targets of an access to the bound regions lie within the reach of its
regions. -/
theorem reaches_of_mem_pieces
    {grid : Grid} {width : Coord} {unit : WorkUnit} {access : Access} {bound id : RegionId}
    {held : List Piece}
    (indexed : grid.Indexed)
    (toBound : access.domain = .regionBound)
    (bounded : access.halo.shape ≠ .domainWide)
    (narrow : access.halo.isGhosted = true → access.halo.width.val ≤ width.val)
    (heldOk : piecesFor grid unit access bound = .ok held)
    (member : id ∈ held.map Piece.region) :
    grid.Reaches width bound id := by
  by_cases ghosted : access.halo.isGhosted = true
  · cases regionAt : grid.region? bound with
    | none =>
        unfold piecesFor at heldOk
        rw [regionAt] at heldOk
        cases heldOk
    | some region =>
        obtain ⟨level, levelAt, inLevel⟩ := Grid.exists_level_of_region? indexed regionAt
        rw [piecesFor_of_bound regionAt levelAt toBound, if_pos ghosted,
          orArithmetic_eq_ok_iff] at heldOk
        obtain ⟨other, otherIn, rfl, adjoins⟩ :=
          adjoins_of_mem_haloPieces bounded ghosted heldOk member
        exact Or.inr ⟨region, other, level, regionAt, Grid.region?_of_mem_level levelAt otherIn,
          levelAt, inLevel, otherIn, adjoins.mono (narrow ghosted)⟩
  · have regionsEq := piecesFor_of_bare toBound (Bool.eq_false_iff.mpr ghosted) heldOk
    rw [regionsEq, List.mem_singleton] at member
    exact Or.inl member.symm

end MeshTasks
