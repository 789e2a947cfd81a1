import MeshTasks.Proofs.Mesh.Cells
import MeshTasks.Proofs.Targets

/-!
# The pieces of a box

The pieces of a box are the parts of it that the regions of a level hold, as the
level lies or seen at one of its shifts. On its own level a halo is cut up box
by box.
-/

namespace MeshTasks

/-- A piece is the part of a box that a region of a level holds at the offset of
the piece. -/
structure Piece.Supplies (level : Level) (piece : Piece) (needed : Box) (held : Region) :
    Prop where
  on_level : held ∈ level.regions
  region_eq : piece.region = held.id
  is_part : piece.box.IsPart needed piece.offset held.box

section

variable {level : Level} {needed : Box} {piece : Piece}

private theorem mem_piecesWithin_iff
    {moved : Box} {offset : Vec}
    (movedEq : ∀ axis,
      (moved.low.get axis).val = (needed.low.get axis).val - (offset.get axis).val ∧
        (moved.high.get axis).val = (needed.high.get axis).val - (offset.get axis).val) :
    piece ∈ piecesWithin level moved offset ↔
      piece.offset = offset ∧ ∃ held, piece.Supplies level needed held := by
  unfold piecesWithin
  rw [List.mem_filterMap]
  constructor
  · rintro ⟨held, selected, pieceEq⟩
    obtain ⟨part, shared, rfl⟩ := Option.map_eq_some_iff.mp pieceEq
    exact ⟨rfl, held, (Level.mem_selectOverlapping.mp selected).1, rfl,
      (Box.intersect?_eq_some_iff movedEq).mp shared⟩
  · rintro ⟨rfl, held, inLevel, regionEq, isPart⟩
    have shared := (Box.intersect?_eq_some_iff movedEq).mpr isPart
    refine ⟨held, Level.mem_selectOverlapping.mpr ⟨inLevel, ?_⟩, ?_⟩
    · rw [Box.overlaps_comm]
      exact Option.isSome_of_mem shared
    · rw [shared, ← regionEq]
      rfl

theorem mem_piecesWithin_zero_iff :
    piece ∈ piecesWithin level needed .zero ↔
      piece.offset = .zero ∧ ∃ held, piece.Supplies level needed held := by
  refine mem_piecesWithin_iff fun axis => ?_
  rw [Vec.get_zero, Int.sub_zero, Int.sub_zero]
  exact ⟨rfl, rfl⟩

/-- The pieces of a box at a shift are found by moving the box back. -/
theorem mem_image_iff
    {shift : Vec} {image : List Piece}
    (imageOk :
      (do
        let back ← shift.neg
        let moved ← needed.translate back
        return piecesWithin level moved shift) = Except.ok image) :
    piece ∈ image ↔ piece.offset = shift ∧ ∃ held, piece.Supplies level needed held := by
  obtain ⟨back, backOk, rest⟩ := bind_eq_ok_iff.mp imageOk
  obtain ⟨moved, movedOk, assembled⟩ := bind_eq_ok_iff.mp rest
  cases assembled
  refine mem_piecesWithin_iff fun axis => ?_
  have movedHere := Box.translate_spec movedOk axis
  rw [Vec.get_neg backOk] at movedHere
  exact movedHere

theorem mem_piecesWithImages_iff
    {pieces : List Piece}
    (piecesOk : piecesWithImages level needed = .ok pieces) :
    piece ∈ pieces ↔
      level.ShiftsBy piece.offset ∧ ∃ held, piece.Supplies level needed held := by
  obtain ⟨shifts, shiftsOk, rest⟩ := bind_eq_ok_iff.mp piecesOk
  obtain ⟨images, imagesOk, assembled⟩ := bind_eq_ok_iff.mp rest
  cases assembled
  rw [List.mem_append, mem_piecesWithin_zero_iff, List.mem_flatten]
  constructor
  · rintro (⟨unshifted, supplied⟩ | ⟨image, imageMember, inImage⟩)
    · exact ⟨Or.inl unshifted, supplied⟩
    · obtain ⟨shift, shiftMember, imageOk⟩ := exists_of_mem_mapM imagesOk imageMember
      obtain ⟨rfl, supplied⟩ := (mem_image_iff imageOk).mp inImage
      exact ⟨Or.inr ⟨shifts, shiftsOk, shiftMember⟩, supplied⟩
  · rintro ⟨unshifted | ⟨all, allOk, shiftMember⟩, supplied⟩
    · exact Or.inl ⟨unshifted, supplied⟩
    · rw [shiftsOk] at allOk
      cases allOk
      obtain ⟨image, imageMember, imageOk⟩ := mapM_result_of_mem imagesOk shiftMember
      exact Or.inr ⟨image, imageMember, (mem_image_iff imageOk).mpr ⟨rfl, supplied⟩⟩

end

section

variable {grid : Grid} {halo : Halo} {region : Region} {target : Level} {pieces : List Piece}

/-- A halo needs its boxes, carried to the level of the access. -/
theorem haloPieces_eq_ok_iff {steps : Int} :
    haloPieces grid halo region target steps = .ok pieces ↔
      ∃ boxes carried parts,
        halo.boxes
            (match grid.level? region.level with
            | none => region.box
            | some level => level.domain)
            region.box = .ok boxes ∧
          (boxes.mapM fun box => carryBox grid box region.level target.index steps) =
              .ok carried ∧
            ((carried.filterMap id).mapM fun box =>
              if halo.isGhosted then
                piecesWithImages target box
              else
                .ok (piecesWithin target box .zero)) = .ok parts ∧
              pieces = parts.flatten := by
  constructor
  · intro piecesOk
    obtain ⟨boxes, boxesOk, rest⟩ := bind_eq_ok_iff.mp piecesOk
    obtain ⟨carried, carriedOk, rest⟩ := bind_eq_ok_iff.mp rest
    obtain ⟨parts, partsOk, assembled⟩ := bind_eq_ok_iff.mp rest
    cases assembled
    exact ⟨boxes, carried, parts, boxesOk, carriedOk, partsOk, rfl⟩
  · rintro ⟨boxes, carried, parts, boxesOk, carriedOk, partsOk, rfl⟩
    exact bind_eq_ok_iff.mpr ⟨boxes, boxesOk,
      bind_eq_ok_iff.mpr ⟨carried, carriedOk, bind_eq_ok_iff.mpr ⟨parts, partsOk, rfl⟩⟩⟩

/-- On its own level a halo needs its boxes just as they are. -/
theorem haloPieces_zero_eq_ok_iff :
    haloPieces grid halo region target 0 = .ok pieces ↔
      ∃ boxes parts,
        halo.boxes
            (match grid.level? region.level with
            | none => region.box
            | some level => level.domain)
            region.box = .ok boxes ∧
          (boxes.mapM fun box =>
            if halo.isGhosted then
              piecesWithImages target box
            else
              .ok (piecesWithin target box .zero)) = .ok parts ∧
            pieces = parts.flatten := by
  have uncarried : ∀ boxes : List Box,
      (boxes.mapM fun box => carryBox grid box region.level target.index 0) =
        .ok (boxes.map some) :=
    fun boxes => mapM_eq_ok_map fun box _ => if_pos rfl
  have kept : ∀ boxes : List Box, (boxes.map some).filterMap id = boxes := by
    intro boxes
    rw [List.filterMap_map, Function.id_comp, List.filterMap_some]
  rw [haloPieces_eq_ok_iff]
  constructor
  · rintro ⟨boxes, carried, parts, boxesOk, carriedOk, partsOk, assembled⟩
    rw [uncarried] at carriedOk
    cases carriedOk
    rw [kept] at partsOk
    exact ⟨boxes, parts, boxesOk, partsOk, assembled⟩
  · rintro ⟨boxes, parts, boxesOk, partsOk, assembled⟩
    refine ⟨boxes, boxes.map some, parts, boxesOk, uncarried boxes, ?_, assembled⟩
    rwa [kept]

end

/-- A cell that some piece from a place holds. -/
def Piece.Holding (pieces : List Piece) (source : RegionId × Vec) (cell : Cell) : Prop :=
  ∃ piece ∈ pieces, piece.place = source ∧ cell ∈ piece.box

end MeshTasks
