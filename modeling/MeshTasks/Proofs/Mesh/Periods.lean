import Mathlib.Logic.ExistsUnique
import MeshTasks.Proofs.Mesh.Images

/-!
# Halos on a level that repeats itself

A level that repeats itself on every axis is seen at the offsets of its 26
images. Together with the level itself they lie side by side, so that a cell up
to one extent of the domain away from it lies in exactly one of them, and a cell
farther away lies in none. A halo that reaches farther is therefore supplied
with no more than this, each cell of it once.
-/

namespace MeshTasks

/-! ## The images of a level -/

namespace Level

variable {level : Level} {shift other : Vec} {cell : Cell}

/-- A cell at most one extent away from the domain on each axis. -/
def InImages (level : Level) (cell : Cell) : Prop :=
  level.domain.Widened
    (fun axis => (level.domain.high.get axis).val - (level.domain.low.get axis).val) cell

private theorem inImages_of_unshift_mem
    (shifts : level.ShiftsBy shift)
    (inDomain : cell.unshift shift ∈ level.domain) :
    level.InImages cell := by
  have holds := Box.isEmpty_eq_false_iff_exists.mpr ⟨_, inDomain⟩
  have near := widened_of_unshift_mem shifts inDomain
  intro axis
  have spans := Box.isEmpty_eq_false_iff_get.mp holds axis
  have nearHere := near axis
  unfold margin at nearHere
  split at nearHere <;> dsimp only <;> omega

/-- On a level that repeats itself on every axis, the images hold every cell up
to one extent away. -/
private theorem exists_shift_of_inImages
    {shifts : List Vec}
    (periodic : level.periodic = ⟨true, true, true⟩)
    (shiftsOk : level.shifts = .ok shifts)
    (holds : level.domain.isEmpty = false)
    (near : level.InImages cell) :
    ∃ shift, level.ShiftsBy shift ∧ cell.unshift shift ∈ level.domain := by
  refine exists_shiftsBy_of_widened shiftsOk holds fun axis => ?_
  have repeats : level.periodic.along axis = true := by
    rw [periodic]
    cases axis <;> rfl
  rw [margin, if_pos repeats]
  exact near axis

/-- On a level whose regions share no cell, no two images of regions share
one. -/
private theorem image_eq_of_unshift_mem
    {region held : Region}
    (disjoint : level.regions.Pairwise fun left right => left.box.overlaps right.box = false)
    (member : region ∈ level.regions)
    (heldMember : held ∈ level.regions)
    (shifts : level.ShiftsBy shift)
    (otherShifts : level.ShiftsBy other)
    (inRegion : cell.unshift shift ∈ region.box)
    (inHeld : cell.unshift other ∈ held.box) :
    other = shift ∧ held = region := by
  obtain rfl := shift_eq_of_unshift_mem shifts otherShifts (mem_domain_of_mem member inRegion)
    (mem_domain_of_mem heldMember inHeld)
  refine ⟨rfl, (eq_of_image_shares disjoint member heldMember (Or.inl rfl) fun axis => ?_).2⟩
  have regionHere := Box.mem_iff_get.mp inRegion axis
  have heldHere := Box.mem_iff_get.mp inHeld axis
  rw [Vec.get_zero]
  omega

end Level

/-! ## Delivered cells -/

/-- The range of a target, moved by the offset of the target, holds the cell. -/
def Target.Delivers (target : Target) (cell : Cell) : Prop :=
  ∃ box ∈ target.box?, cell.unshift target.offset ∈ box

instance (target : Target) (cell : Cell) : Decidable (target.Delivers cell) :=
  inferInstanceAs (Decidable (∃ box ∈ target.box?, cell.unshift target.offset ∈ box))

private theorem Target.delivers_part_iff
    {piece : Piece} {cell : Cell} :
    (Target.part piece).Delivers cell ↔ cell.unshift piece.offset ∈ piece.box := by
  simp [Delivers, box?, Target.offset]

/-- A halo that reaches out cuts up boxes only if the shifts of the level can be
computed. -/
private theorem exists_shifts_of_cut
    {halo : Halo} {level : Level} {needed : Box} {boxes : List Box} {parts : List (List Piece)}
    (ghosted : halo.isGhosted = true)
    (member : needed ∈ boxes)
    (partsOk :
      (boxes.mapM fun box =>
        if halo.isGhosted then
          piecesWithImages level box
        else
          .ok (piecesWithin level box .zero)) = .ok parts) :
    ∃ shifts, level.shifts = .ok shifts := by
  obtain ⟨part, _, partOk⟩ := mapM_result_of_mem partsOk member
  rw [if_pos ghosted] at partOk
  obtain ⟨shifts, shiftsOk, _⟩ := bind_eq_ok_iff.mp partOk
  exact ⟨shifts, shiftsOk⟩

/-- An access around the one region of an item, corners included, on a level
that repeats itself on every axis and whose regions fill its domain without
sharing a cell. -/
structure Access.WrapsAround (access : Access) (grid : Grid) (item : WorkItem) (bound : RegionId)
    (region : Region) (level : Level) : Prop where
  indexed : grid.Indexed
  on_one : item.regions = [bound]
  region_eq : grid.region? bound = some region
  level_eq : grid.level? region.level = some level
  periodic : level.periodic = ⟨true, true, true⟩
  disjoint : level.regions.Pairwise fun left right => left.box.overlaps right.box = false
  filled : ∀ cell ∈ level.domain, ∃ held ∈ level.regions, cell ∈ held.box
  to_bound : access.domain = .regionBound
  shape_eq : access.halo.shape = .cornerAdjacent
  reaches : 1 ≤ access.halo.width.val

namespace Access.WrapsAround

variable {access : Access} {grid : Grid} {item : WorkItem} {unit : WorkUnit} {bound : RegionId}
  {region : Region} {level : Level}

private theorem mem_level
    (wraps : access.WrapsAround grid item bound region level) :
    region ∈ level.regions := by
  obtain ⟨_, levelEq, member⟩ := Grid.exists_level_of_region? wraps.indexed wraps.region_eq
  rw [wraps.level_eq] at levelEq
  cases levelEq
  exact member

private theorem ghosted
    (wraps : access.WrapsAround grid item bound region level) :
    access.halo.isGhosted = true := by
  have reaches : Coord.zero < access.halo.width := Coord.lt_iff.mpr wraps.reaches
  unfold Halo.isGhosted
  rw [wraps.shape_eq]
  exact decide_eq_true reaches

private theorem domain_holds
    (wraps : access.WrapsAround grid item bound region level) :
    level.domain.isEmpty = false :=
  Level.domain_holds_of_mem wraps.mem_level

/-- An access that does not apply to the region delivers no cell of it. -/
private theorem exists_targets_of_not_applied
    (unit : WorkUnit)
    (wraps : access.WrapsAround grid item bound region level)
    (unapplied : ¬ (access.label.isReduction = false ∧ access.admits bound = true)) :
    ∃ found, targets grid item unit access = .ok found ∧ found.Nodup ∧
      ∀ target ∈ found, ∀ cell, ¬ target.Delivers cell := by
  by_cases reduction : access.label.isReduction = true
  · refine ⟨[.global], if_pos reduction, List.nodup_singleton _, fun target member cell => ?_⟩
    rw [List.mem_singleton.mp member]
    rintro ⟨_, nothing, _⟩
    cases nothing
  · have notReduction := Bool.eq_false_iff.mpr reduction
    have placed : item.regions ≠ [] := by
      rw [wraps.on_one]
      exact List.cons_ne_nil _ _
    refine ⟨[], (targets_eq_ok_iff notReduction placed).mpr ⟨[], ?_, rfl⟩, List.nodup_nil,
      fun _ member => absurd member List.not_mem_nil⟩
    rw [wraps.on_one, List.filter_cons_of_neg fun admitted => unapplied ⟨notReduction, admitted⟩]
    rfl

/-- The pieces of an access that wraps around hold just the cells of its halo
that lie in an image of a region, and no two of them come from one place. -/
private theorem exists_pieces
    (wraps : access.WrapsAround grid item bound region level)
    (notReduction : access.label.isReduction = false)
    (admitted : access.admits bound = true)
    (fits : ∀ fault, targets grid item unit access ≠ .error (.arithmetic fault)) :
    ∃ pieces, targets grid item unit access = .ok (pieces.map .part) ∧
      (pieces.map Piece.place).Nodup ∧
        (∃ shifts, level.shifts = .ok shifts) ∧
          ∀ id shift (cell : Cell), Piece.Holding pieces (id, shift) (cell.unshift shift) ↔
            level.ShiftsBy shift ∧ ∃ held ∈ level.regions, held.id = id ∧
              cell.unshift shift ∈ held.box ∧
                region.box.Widened (fun _ => access.halo.width.val) cell := by
  have targetsEq :=
    @targets_of_admitted grid item unit access bound wraps.on_one notReduction admitted
  rw [piecesFor_of_bound wraps.region_eq wraps.level_eq wraps.to_bound, if_pos wraps.ghosted]
    at targetsEq
  cases gathered : haloPieces grid access.halo region level 0 with
  | error fault =>
      rw [gathered] at targetsEq
      exact absurd targetsEq (fits fault)
  | ok pieces =>
      rw [gathered] at targetsEq
      obtain ⟨boxes, parts, boxesOk, partsOk, rfl⟩ := haloPieces_zero_eq_ok_iff.mp gathered
      rw [wraps.level_eq] at boxesOk
      have wide : 0 ≤ access.halo.width.val := Int.le_trans (by decide) wraps.reaches
      have cuts : access.halo.Cuts level region boxes parts.flatten :=
        ⟨Halo.gathers_boxes wide boxesOk, fun _ => mem_flatten_of_cut_iff partsOk⟩
      have agree := cuts.agree wraps.disjoint wraps.mem_level
        fun _ firstIn _ secondIn => Grid.eq_of_id_eq wraps.level_eq firstIn secondIn
      refine ⟨_, targetsEq, nodup_map_place_joinPieces _, ?_, fun id shift cell => ?_⟩
      · unfold Halo.boxes at boxesOk
        rw [wraps.shape_eq] at boxesOk
        obtain ⟨dilated, _, assembled⟩ := bind_eq_ok_iff.mp boxesOk
        cases assembled
        exact exists_shifts_of_cut wraps.ghosted List.mem_cons_self partsOk
      · have joined :
            Piece.Holding (joinPieces parts.flatten) (id, shift) (cell.unshift shift) ↔
              Piece.Holding parts.flatten (id, shift) (cell.unshift shift) := by
          unfold Piece.Holding
          simp only [mem_joinPieces_of_agree agree]
        have needed : (∃ box ∈ boxes, cell ∈ box) ↔
            region.box.Widened (fun _ => access.halo.width.val) cell := by
          rw [← cuts.gathers.needs_iff]
          simp only [Halo.Needs, wraps.shape_eq]
        rw [joined, holding_iff_of_mem_iff cuts.mem_iff, needed,
          Halo.sees_iff_shiftsBy wraps.ghosted]

end Access.WrapsAround

/-- A cell that an access around a region obtains: the access applies to the
region, its halo needs the cell, and an image of the level holds it. -/
structure Access.Obtains (access : Access) (bound : RegionId) (region : Region) (level : Level)
    (cell : Cell) : Prop where
  not_reduction : access.label.isReduction = false
  admitted : access.admits bound = true
  needed : region.box.Widened (fun _ => access.halo.width.val) cell
  near : level.InImages cell

/-- An access around a region of a level that repeats itself on every axis
obtains each cell of its halo that an image of the level holds from exactly one
target, and no other cell from any. -/
theorem periodic_halo_delivered
    {grid : Grid} {item : WorkItem} {unit : WorkUnit} {access : Access} {bound : RegionId}
    {region : Region} {level : Level}
    (wraps : access.WrapsAround grid item bound region level)
    (fits : ∀ fault, targets grid item unit access ≠ .error (.arithmetic fault)) :
    ∃ found, targets grid item unit access = .ok found ∧ found.Nodup ∧
      ∀ cell,
        (access.Obtains bound region level cell →
          ∃! target, target ∈ found ∧ target.Delivers cell) ∧
        (¬ access.Obtains bound region level cell → ∀ target ∈ found, ¬ target.Delivers cell) := by
  by_cases applied : access.label.isReduction = false ∧ access.admits bound = true
  · obtain ⟨notReduction, admitted⟩ := applied
    obtain ⟨pieces, foundOk, apart, ⟨shifts, shiftsOk⟩, holding⟩ :=
      wraps.exists_pieces notReduction admitted fits
    have delivers : ∀ {piece cell}, piece ∈ pieces → (Target.part piece).Delivers cell →
        level.ShiftsBy piece.offset ∧ ∃ held ∈ level.regions, held.id = piece.region ∧
          cell.unshift piece.offset ∈ held.box ∧
            region.box.Widened (fun _ => access.halo.width.val) cell := by
      intro piece cell member delivered
      exact (holding piece.region piece.offset cell).mp
        ⟨piece, member, rfl, Target.delivers_part_iff.mp delivered⟩
    have distinct : (pieces.map Target.part).Nodup :=
      (List.Nodup.of_map _ apart).map fun _ _ same => Target.part.inj same
    refine ⟨_, foundOk, distinct,
      fun cell => ⟨fun obtains => ?_, fun missing target member delivered => ?_⟩⟩
    · obtain ⟨shift, shiftsBy, inDomain⟩ :=
        Level.exists_shift_of_inImages wraps.periodic shiftsOk wraps.domain_holds obtains.near
      obtain ⟨held, inLevel, inHeld⟩ := wraps.filled _ inDomain
      obtain ⟨piece, member, place, inPiece⟩ := (holding held.id shift cell).mpr
        ⟨shiftsBy, held, inLevel, rfl, inHeld, obtains.needed⟩
      obtain ⟨fromHeld, rfl⟩ := Prod.mk.inj place
      refine ⟨.part piece, ⟨List.mem_map_of_mem member, Target.delivers_part_iff.mpr inPiece⟩, ?_⟩
      rintro _ ⟨otherMember, otherDelivers⟩
      obtain ⟨other, otherIn, rfl⟩ := List.mem_map.mp otherMember
      obtain ⟨otherShifts, otherHeld, otherInLevel, fromOther, inOther, _⟩ :=
        delivers otherIn otherDelivers
      obtain ⟨sameOffset, rfl⟩ := Level.image_eq_of_unshift_mem wraps.disjoint inLevel otherInLevel
        shiftsBy otherShifts inHeld inOther
      have samePlace : other.place = piece.place :=
        Prod.ext (fromOther.symm.trans fromHeld.symm) sameOffset
      rw [List.inj_on_of_nodup_map apart otherIn member samePlace]
    · obtain ⟨piece, pieceMember, rfl⟩ := List.mem_map.mp member
      obtain ⟨shiftsBy, held, inLevel, _, inHeld, needed⟩ := delivers pieceMember delivered
      have near := Level.inImages_of_unshift_mem shiftsBy (Level.mem_domain_of_mem inLevel inHeld)
      exact missing ⟨notReduction, admitted, needed, near⟩
  · obtain ⟨found, foundOk, distinct, nothing⟩ := wraps.exists_targets_of_not_applied unit applied
    refine ⟨found, foundOk, distinct, fun cell => ⟨fun obtains => ?_, fun _ target member => ?_⟩⟩
    · exact absurd ⟨obtains.not_reduction, obtains.admitted⟩ applied
    · exact nothing target member cell

/-! ## Halos wider than the domain -/

namespace Row

/-- The row, repeated on every axis. -/
def repeated : Level := { level with periodic := ⟨true, true, true⟩ }

def repeatedGrid : Grid := ⟨[repeated], by decide⟩

private theorem repeated_filled (cell : Cell) (inRow : cell ∈ repeated.domain) :
    ∃ held ∈ repeated.regions, cell ∈ held.box := by
  obtain ⟨onX, onY, onZ⟩ := Box.mem_def.mp inRow
  by_cases before : cell.x < four.val
  · exact ⟨_, List.mem_cons_self, Box.mem_def.mpr ⟨⟨onX.1, before⟩, onY, onZ⟩⟩
  · exact ⟨_, List.mem_cons_of_mem _ List.mem_cons_self,
      Box.mem_def.mpr ⟨⟨Int.not_lt.mp before, onX.2⟩, onY, onZ⟩⟩

/-- An access to the density that reaches farther than the row is high. -/
def farAround : Access :=
  { Access.of density with halo := ⟨.cornerAdjacent, eight⟩ }

end Row

theorem periodic_halo_delivered_row :
    ∃ found,
      targets Row.repeatedGrid Row.onLeft (Row.unit "relax" [⟨0⟩]) Row.farAround = .ok found ∧
      (∃! target, target ∈ found ∧ target.Delivers ⟨-5, -4, 7⟩) ∧
        ∀ target ∈ found, ¬ target.Delivers ⟨-5, -5, 7⟩ := by
  have wraps : Row.farAround.WrapsAround Row.repeatedGrid Row.onLeft ⟨0⟩
      ⟨⟨0⟩, 0, ⟨.zero, .splat Row.four⟩⟩ Row.repeated :=
    ⟨Grid.indexed_iff.mpr rfl, rfl, rfl, rfl, rfl, by decide, Row.repeated_filled, rfl, rfl,
      by decide⟩
  have succeeds :
      (targets Row.repeatedGrid Row.onLeft (Row.unit "relax" [⟨0⟩]) Row.farAround).isOk = true :=
    rfl
  have fits : ∀ fault,
      targets Row.repeatedGrid Row.onLeft (Row.unit "relax" [⟨0⟩]) Row.farAround ≠
        .error (.arithmetic fault) := by
    intro fault failed
    rw [failed] at succeeds
    cases succeeds
  obtain ⟨found, foundOk, _, supplied⟩ := periodic_halo_delivered wraps fits
  refine ⟨found, foundOk, (supplied _).1 ⟨rfl, rfl, ?_, ?_⟩, (supplied _).2 fun obtains => ?_⟩
  · intro axis
    cases axis <;> decide
  · intro axis
    cases axis <;> decide
  · have near := obtains.near .y
    revert near
    decide

namespace Lone

/-- A level of a single cell that repeats itself on every axis. -/
def level : Level where
  index := 0
  ratio := .one
  periodic := ⟨true, true, true⟩
  regions := [⟨⟨0⟩, 0, ⟨.zero, .one⟩⟩]
  domain := ⟨.zero, .one⟩
  widest := .one
  coherent := by constructor <;> decide

def grid : Grid := ⟨[level], by decide⟩

/-- An access that reaches two cells around. -/
def twoAround : Access := { Access.of Row.density with halo := ⟨.cornerAdjacent, Row.two⟩ }

/-- The cell itself and its 26 images. -/
def images : List Target :=
  level.periodic.images.map fun step => .part ⟨⟨0⟩, ⟨.zero, .one⟩, step⟩

end Lone

theorem periodic_halo_incomplete_lone :
    ¬ ∀ (grid : Grid) (item : WorkItem) (unit : WorkUnit) (access : Access) (bound : RegionId)
        (region : Region) (level : Level),
      access.WrapsAround grid item bound region level →
        access.label.isReduction = false → access.admits bound = true →
          (∀ fault, targets grid item unit access ≠ .error (.arithmetic fault)) →
            ∃ found, targets grid item unit access = .ok found ∧
              ∀ cell, region.box.Widened (fun _ => access.halo.width.val) cell →
                ∃! target, target ∈ found ∧ target.Delivers cell := by
  intro complete
  have computed :
      targets Lone.grid Row.onLeft (Row.unit "relax" [⟨0⟩]) Lone.twoAround = .ok Lone.images := rfl
  have wraps : Lone.twoAround.WrapsAround Lone.grid Row.onLeft ⟨0⟩ ⟨⟨0⟩, 0, ⟨.zero, .one⟩⟩
      Lone.level :=
    ⟨Grid.indexed_iff.mpr rfl, rfl, rfl, rfl, rfl, by decide,
      fun _ inLone => ⟨_, List.mem_cons_self, inLone⟩, rfl, rfl, by decide⟩
  obtain ⟨found, foundOk, delivered⟩ := complete _ _ _ _ _ _ _ wraps rfl rfl fun fault failed => by
    rw [computed] at failed
    cases failed
  rw [computed] at foundOk
  cases foundOk
  have beside : Box.Widened ⟨.zero, .one⟩ (fun _ => Row.two.val) ⟨2, 0, 0⟩ := by
    intro axis
    cases axis <;> decide
  obtain ⟨target, ⟨member, delivers⟩, _⟩ := delivered ⟨2, 0, 0⟩ beside
  have nowhere : ∀ target ∈ Lone.images, ¬ target.Delivers ⟨2, 0, 0⟩ := by decide
  exact nowhere target member delivers

end MeshTasks
