import MeshTasks.Proofs.Mesh.Decomposition

/-!
# What is read beneath a region

An access to a coarser level reads the coarse cells that hold a cell of the
bound region or of the rim around it. The rim is added on the level of the
region, before the region is carried down, so it shows on the coarser level
unless rounding to coarse cells takes it in.
-/

namespace MeshTasks

namespace Grid

/-- How many cells of the finer level one of the coarser level spans on an
axis. -/
def stride (grid : Grid) (coarse fine : Nat) (axis : Axis) : Int :=
  (grid.ratiosBetween coarse fine).foldl (fun cells ratio => cells * (ratio.get axis).val) 1

variable {grid : Grid} {coarse fine : Nat} {outer inner : Cell} {level : Level}

theorem stride_self (axis : Axis) : grid.stride coarse coarse axis = 1 := by
  simp [stride, ratiosBetween_self]

theorem stride_succ
    (levelAt : grid.level? (fine + 1) = some level)
    (ordered : coarse ≤ fine)
    (axis : Axis) :
    grid.stride coarse (fine + 1) axis =
      grid.stride coarse fine axis * (level.ratio.get axis).val := by
  simp [stride, ratiosBetween_succ levelAt ordered]

variable (ordered : coarse ≤ fine) (onGrid : fine < grid.levels.length)

include ordered onGrid

theorem stride_pos (axis : Axis) : 0 < grid.stride coarse fine axis := by
  induction fine, ordered using Nat.le_induction with
  | base => simp [stride_self]
  | succ between ordered inductionHypothesis =>
      obtain ⟨level, levelAt⟩ := exists_level_of_lt onGrid
      rw [stride_succ levelAt ordered]
      exact Int.mul_pos (inductionHypothesis (Nat.lt_of_succ_lt onGrid))
        (Vec.get_pos_of_isPositive level.coherent.ratio_positive axis)

/-- The coarse cell around a cell is found by one division, however many levels
lie between. -/
theorem encloses_iff_get :
    grid.Encloses coarse outer fine inner ↔
      ∀ axis, outer.get axis = inner.get axis / grid.stride coarse fine axis := by
  induction fine, ordered using Nat.le_induction generalizing inner with
  | base => simp [encloses_self_iff, Cell.eq_iff_get, stride_self]
  | succ between ordered inductionHypothesis =>
      obtain ⟨level, levelAt⟩ := exists_level_of_lt onGrid
      rw [encloses_succ_iff levelAt ordered, inductionHypothesis (Nat.lt_of_succ_lt onGrid)]
      apply forall_congr'
      intro axis
      have ratioPos := Vec.get_pos_of_isPositive level.coherent.ratio_positive axis
      rw [Cell.get_coarse, stride_succ levelAt ordered,
        Int.ediv_ediv_of_nonneg (Int.le_of_lt ratioPos), Int.mul_comm]

end Grid

/-- The numbers between two others have the quotients between theirs. -/
private theorem exists_ediv_iff
    {first last quotient divisor : Int}
    (positive : 0 < divisor)
    (ordered : first ≤ last) :
    (∃ value, (first ≤ value ∧ value ≤ last) ∧ quotient = value / divisor) ↔
      first / divisor ≤ quotient ∧ quotient ≤ last / divisor := by
  constructor
  · rintro ⟨value, ⟨above, below⟩, rfl⟩
    exact ⟨Int.ediv_le_ediv positive above, Int.ediv_le_ediv positive below⟩
  · rintro ⟨above, below⟩
    have firstBelow := Int.lt_ediv_add_one_mul_self first positive
    have startsBefore : quotient * divisor ≤ last := (Int.le_ediv_iff_mul_le positive).mp below
    have scaled : (first / divisor + 1) * divisor ≤ (quotient + 1) * divisor :=
      Int.mul_le_mul_of_nonneg_right (by omega) (Int.le_of_lt positive)
    rw [Int.add_mul quotient, Int.one_mul] at scaled
    refine ⟨max first (quotient * divisor), by omega, Int.le_antisymm ?_ ?_⟩
    · exact (Int.le_ediv_iff_mul_le positive).mpr (Int.le_max_right _ _)
    · refine Int.lt_add_one_iff.mp ((Int.ediv_lt_iff_lt_mul positive).mpr ?_)
      rw [Int.add_mul, Int.one_mul]
      omega

/-- The coarse cells around the cells of a block are a block again. -/
theorem Grid.exists_enclosed_iff
    {grid : Grid} {coarse fine : Nat} {outer : Cell} {first last : Axis → Int}
    (ordered : coarse ≤ fine)
    (onGrid : fine < grid.levels.length)
    (spans : ∀ axis, first axis ≤ last axis) :
    (∃ inner : Cell, (∀ axis, first axis ≤ inner.get axis ∧ inner.get axis ≤ last axis) ∧
        grid.Encloses coarse outer fine inner) ↔
      ∀ axis, first axis / grid.stride coarse fine axis ≤ outer.get axis ∧
        outer.get axis ≤ last axis / grid.stride coarse fine axis := by
  have choice := @Cell.exists_iff_forall_axis fun axis value =>
    (first axis ≤ value ∧ value ≤ last axis) ∧
      outer.get axis = value / grid.stride coarse fine axis
  simp only [encloses_iff_get ordered onGrid, ← forall_and]
  rw [choice]
  apply forall_congr'
  intro axis
  exact exists_ediv_iff (stride_pos ordered onGrid axis) (spans axis)

/-! ## Halos seen from a coarser level -/

namespace Halo

/-- Rounding takes the rim in: the coarse cells of the first and of the last
cell of a box hold the cells up to the reach of the halo before and after
them. -/
def IsHidden (halo : Halo) (stride : Axis → Int) (box : Box) : Prop :=
  ∀ axis,
    ((box.low.get axis).val - halo.reach) / stride axis = (box.low.get axis).val / stride axis ∧
      ((box.high.get axis).val - 1 + halo.reach) / stride axis =
        ((box.high.get axis).val - 1) / stride axis

end Halo

/-! ## Targets on a coarser level -/

/-- The targets at no offset cover only coarse cells that hold one of certain
cells. -/
def CoversOnly (grid : Grid) (coarse fine : Nat) (found : List Target) (within : Cell → Prop) :
    Prop :=
  ∀ target ∈ found, target.offset = .zero → ∀ box, target.box? = some box → ∀ outer ∈ box,
    ∃ inner, within inner ∧ grid.Encloses coarse outer fine inner

/-- Bounds on the coarse cells that targets cover say which cells these hold. -/
private theorem coversOnly_of_bounds
    {grid : Grid} {coarse fine : Nat} {found : List Target} {within : Cell → Prop}
    {first last : Axis → Int}
    (ordered : coarse ≤ fine)
    (onGrid : fine < grid.levels.length)
    (spans : ∀ axis, first axis ≤ last axis)
    (bounds : ∀ target ∈ found, target.offset = .zero → ∀ box, target.box? = some box →
      ∀ outer ∈ box, ∀ axis,
        first axis / grid.stride coarse fine axis ≤ outer.get axis ∧
          outer.get axis ≤ last axis / grid.stride coarse fine axis)
    (inside : ∀ inner : Cell,
      (∀ axis, first axis ≤ inner.get axis ∧ inner.get axis ≤ last axis) → within inner) :
    CoversOnly grid coarse fine found within := by
  intro target member unshifted box boxEq outer inBox
  obtain ⟨inner, between, encloses⟩ :=
    (Grid.exists_enclosed_iff ordered onGrid spans).mpr
      (bounds target member unshifted box boxEq outer inBox)
  exact ⟨inner, inside inner between, encloses⟩

section

variable {grid : Grid} {item : WorkItem} {unit : WorkUnit} {access : Access} {bound : RegionId}
  {region : Region} {steps : UInt32} {pieces : List Piece} {found : List Target}

/-- The targets with cells of an access to the one bound region are joined of
what it needs. -/
private theorem exists_piece_of_mem_targets
    {target : Target} {box : Box}
    (onOne : item.regions = [bound])
    (foundOk : targets grid item unit access = .ok found)
    (member : target ∈ found)
    (boxEq : target.box? = some box) :
    ∃ pieces, piecesFor grid unit access bound = .ok pieces ∧
      ∃ piece ∈ joinPieces pieces, target = .part piece := by
  by_cases reduction : access.label.isReduction = true
  · unfold targets at foundOk
    rw [if_pos reduction] at foundOk
    cases foundOk
    rw [List.mem_singleton.mp member] at boxEq
    cases boxEq
  · rw [Bool.not_eq_true] at reduction
    have placed : item.regions ≠ [] := by simp [onOne]
    obtain ⟨pieces, piecesOk, rfl⟩ := (targets_eq_ok_iff reduction placed).mp foundOk
    obtain ⟨piece, pieceMember, rfl⟩ := List.mem_map.mp member
    rw [onOne, mapM_eq_ok_iff] at piecesOk
    by_cases admitted : access.admits bound = true
    · rw [List.filter_cons_of_pos admitted, List.filter_nil] at piecesOk
      obtain ⟨needed, _, neededOk, nothing, rfl⟩ := List.forall₂_cons_left_iff.mp piecesOk
      cases nothing
      exact ⟨needed, neededOk, piece, by simpa using pieceMember, rfl⟩
    · rw [List.filter_cons_of_neg admitted, List.filter_nil] at piecesOk
      cases piecesOk
      cases pieceMember

variable
  (indexed : grid.Indexed)
  (regionAt : grid.region? bound = some region)
  (toCoarser : access.domain = .coarserLevel steps)
  (below : 1 ≤ steps)
  (wide : 0 ≤ access.halo.width.val)

include indexed regionAt toCoarser below wide

/-- What an access to a coarser level needs for the bound region is supplied by
that level. -/
theorem exists_suppliedBy_of_coarser
    (piecesOk : piecesFor grid unit access bound = .ok pieces) :
    ∃ level, grid.level? (region.level - steps.toNat) = some level ∧ level.index < region.level ∧
      level.index = region.level - steps.toNat ∧
        access.halo.SuppliedBy grid region level pieces := by
  have regional : access.domain ≠ .wholeDomain := by simp [toCoarser]
  have offset : access.domain.levelOffset = -(steps.toNat : Int) := by
    rw [toCoarser]
    rfl
  have someSteps : 1 ≤ steps.toNat := below
  obtain ⟨other, level, sameId, otherAt, levelAt, needs⟩ :=
    exists_level_of_piecesFor regional piecesOk
  rw [sameId, regionAt] at otherAt
  cases otherAt
  obtain ⟨own, ownAt, inOwn⟩ := Grid.exists_level_of_region? indexed regionAt
  have gathered := needs.resolve_left fun here => by
    have stays := here.1
    omega
  obtain ⟨position, positionEq, atPosition⟩ := Grid.levelAt?_eq_some_iff.mp levelAt
  obtain rfl : position = region.level - steps.toNat := by omega
  have indexEq := indexed _ level atPosition
  exact ⟨level, atPosition, by omega, indexEq,
    suppliedBy_haloPieces indexed ownAt inOwn wide levelAt gathered⟩

/-- Whatever a halo needs lies in the region widened by its reach, so the
targets stay within the coarse cells around that. -/
theorem bounds_of_mem_coarser_target
    (bounded : access.halo.shape ≠ .domainWide)
    (onOne : item.regions = [bound])
    (foundOk : targets grid item unit access = .ok found) :
    ∀ target ∈ found, target.offset = .zero → ∀ box, target.box? = some box →
      ∀ outer ∈ box, ∀ axis,
        ((region.box.low.get axis).val - access.halo.reach) /
              grid.stride (region.level - steps.toNat) region.level axis ≤ outer.get axis ∧
          outer.get axis ≤ ((region.box.high.get axis).val - 1 + access.halo.reach) /
              grid.stride (region.level - steps.toNat) region.level axis := by
  intro target member unshifted box boxEq outer inBox
  obtain ⟨pieces, piecesOk, piece, pieceMember, rfl⟩ :=
    exists_piece_of_mem_targets onOne foundOk member boxEq
  obtain ⟨level, _, lower, indexEq, supplied⟩ :=
    exists_suppliedBy_of_coarser indexed regionAt toCoarser below wide piecesOk
  cases boxEq
  have offsetEq : piece.offset = .zero := unshifted
  have around := (isLeastAround_of_mem_joinPieces supplied.not_empty piece pieceMember).2
  refine around.bounded (fun cell holding => ?_) outer inBox
  obtain ⟨_, _, _, _, _, own, needed, ownAt, needs, nested⟩ :=
    (supplied.holding_iff piece.region piece.offset cell).mp holding
  rw [offsetEq, Cell.shift_zero, Grid.nested_iff_of_gt lower, indexEq] at nested
  have inRim := Halo.widened_of_needs bounded wide needs
  have here : ∀ axis, (region.box.low.get axis).val - access.halo.reach ≤ needed.get axis ∧
      needed.get axis ≤ (region.box.high.get axis).val - 1 + access.halo.reach := by
    intro axis
    have rimHere := inRim axis
    dsimp only at rimHere
    omega
  have spans : ∀ axis, (region.box.low.get axis).val - access.halo.reach ≤
      (region.box.high.get axis).val - 1 + access.halo.reach :=
    fun axis => Int.le_trans (here axis).1 (here axis).2
  exact (Grid.exists_enclosed_iff (Nat.sub_le _ _) (Grid.lt_length_of_level? ownAt) spans).mp
    ⟨needed, here, nested⟩

/-- The coarse cells around the cells of the region are read wherever the level
holds them. -/
private theorem exists_coarser_target
    (bounded : access.halo.shape ≠ .domainWide)
    (onOne : item.regions = [bound])
    (notReduction : access.label.isReduction = false)
    (admitted : access.admits bound = true)
    (foundOk : targets grid item unit access = .ok found)
    {level : Level} {held : Region} {outer inner : Cell}
    (levelAt : grid.level? (region.level - steps.toNat) = some level)
    (inLevel : held ∈ level.regions)
    (inHeld : outer ∈ held.box)
    (inRegion : inner ∈ region.box)
    (encloses : grid.Encloses (region.level - steps.toNat) outer region.level inner) :
    ∃ target ∈ found, target.region? = some held.id ∧ target.offset = .zero ∧
      ∃ box, target.box? = some box ∧ outer ∈ box := by
  rw [targets_of_admitted onOne notReduction admitted] at foundOk
  obtain ⟨pieces, piecesOk, assembled⟩ := bind_eq_ok_iff.mp foundOk
  cases assembled
  obtain ⟨_, sameLevel, lower, indexEq, supplied⟩ :=
    exists_suppliedBy_of_coarser indexed regionAt toCoarser below wide piecesOk
  rw [levelAt] at sameLevel
  cases sameLevel
  obtain ⟨own, ownAt, _⟩ := Grid.exists_level_of_region? indexed regionAt
  have asked : access.halo.NeedsOn grid region level.index (outer.shift .zero) := by
    refine ⟨own, inner, ownAt, Halo.needs_of_mem bounded wide inRegion, ?_⟩
    rwa [Cell.shift_zero, Grid.nested_iff_of_gt lower, indexEq]
  have holding : Piece.Holding pieces (held.id, .zero) outer :=
    (supplied.holding_iff held.id .zero outer).mpr
      ⟨Or.inl rfl, held, inLevel, rfl, inHeld, asked⟩
  have there : (held.id, Vec.zero) ∈ (joinPieces pieces).map Piece.place := by
    obtain ⟨piece, pieceMember, fromHeld, _⟩ := holding
    exact mem_map_place_joinPieces.mpr (List.mem_map.mpr ⟨piece, pieceMember, fromHeld⟩)
  obtain ⟨joined, joinedMember, fromHeld⟩ := List.mem_map.mp there
  have around := (isLeastAround_of_mem_joinPieces supplied.not_empty joined joinedMember).2
  rw [fromHeld] at around
  obtain ⟨sameRegion, unshifted⟩ := Prod.mk.inj fromHeld
  exact ⟨.part joined, List.mem_map.mpr ⟨joined, joinedMember, rfl⟩, congrArg some sameRegion,
    unshifted, joined.box, rfl, around.mem_of_needed outer holding⟩

end

/-- The targets of an access to a coarser level cover the coarse cells around
the bound region, as far as there are regions. They cover others only around the
rim of the region, and none at all if rounding takes the rim in, as it does if
there is no rim. -/
theorem coarser_targets_cover
    {grid : Grid} {item : WorkItem} {unit : WorkUnit} {access : Access} {bound : RegionId}
    {region : Region} {steps : UInt32} {found : List Target}
    (indexed : grid.Indexed)
    (onOne : item.regions = [bound])
    (regionAt : grid.region? bound = some region)
    (toCoarser : access.domain = .coarserLevel steps)
    (below : 1 ≤ steps)
    (bounded : access.halo.shape ≠ .domainWide)
    (wide : 0 ≤ access.halo.width.val)
    (foundOk : targets grid item unit access = .ok found) :
    CoversOnly grid (region.level - steps.toNat) region.level found
        (region.box.Widened fun _ => access.halo.reach) ∧
      (access.halo.IsHidden (grid.stride (region.level - steps.toNat) region.level) region.box →
        CoversOnly grid (region.level - steps.toNat) region.level found (· ∈ region.box)) ∧
      (access.label.isReduction = false → access.admits bound = true →
        ∀ level, grid.level? (region.level - steps.toNat) = some level →
          ∀ held ∈ level.regions, ∀ outer ∈ held.box, ∀ inner ∈ region.box,
            grid.Encloses (region.level - steps.toNat) outer region.level inner →
              ∃ target ∈ found, target.region? = some held.id ∧ target.offset = .zero ∧
                ∃ box, target.box? = some box ∧ outer ∈ box) := by
  obtain ⟨own, ownAt, inOwn⟩ := Grid.exists_level_of_region? indexed regionAt
  have spans := Box.isEmpty_eq_false_iff_get.mp (own.coherent.not_empty region inOwn)
  have reaches := Halo.reach_nonneg wide
  have ordered : region.level - steps.toNat ≤ region.level := Nat.sub_le _ _
  have onGrid := Grid.lt_length_of_level? ownAt
  have bounds := bounds_of_mem_coarser_target indexed regionAt toCoarser below wide bounded onOne
    foundOk
  refine ⟨coversOnly_of_bounds ordered onGrid (fun axis => ?_) bounds fun inner between axis => ?_,
    fun hidden => ?_, ?_⟩
  · have here := spans axis
    omega
  · have here := between axis
    dsimp only
    omega
  · simp only [(hidden _).1, (hidden _).2] at bounds
    refine coversOnly_of_bounds ordered onGrid (fun axis => ?_) bounds fun inner between => ?_
    · have here := spans axis
      omega
    · refine Box.mem_iff_get.mpr fun axis => ?_
      have here := between axis
      omega
  · intro notReduction admitted level levelAt held inLevel outer inHeld inner inRegion encloses
    exact exists_coarser_target indexed regionAt toCoarser below wide bounded onOne notReduction
      admitted foundOk levelAt inLevel inHeld inRegion encloses

/-! ## Two cubes above a coarser one -/

namespace Row

def coarseCube : Level where
  index := 0
  ratio := .one
  periodic := .none
  regions := [⟨⟨0⟩, 0, ⟨.zero, .splat eight⟩⟩]
  domain := ⟨.zero, .splat eight⟩
  widest := eight
  coherent := by constructor <;> decide

/-- The first of the two begins and ends with coarse cells, the second amid
them. -/
def fineCubes : Level where
  index := 1
  ratio := .splat two
  periodic := .none
  regions := [
    ⟨⟨1⟩, 1, ⟨.splat two, .splat four⟩⟩,
    ⟨⟨2⟩, 1, ⟨.splat (.clamp 5), .splat (.clamp 7)⟩⟩]
  domain := ⟨.splat two, .splat (.clamp 7)⟩
  widest := two
  coherent := by constructor <;> decide

def cubes : Grid := ⟨[coarseCube, fineCubes], by decide⟩

/-- The coarse cells of one box. -/
def underCube (low high : Coord) : List Target :=
  [.part ⟨⟨0⟩, ⟨.splat low, .splat high⟩, .zero⟩]

end Row

theorem coarser_targets_cover_cube :
    targets Row.cubes { Row.onLeft with regions := [⟨2⟩] } (Row.unit "relax" [⟨2⟩])
        { Row.around with domain := .coarserLevel 1 } = .ok (Row.underCube Row.two Row.four) ∧
      CoversOnly Row.cubes 0 1 (Row.underCube Row.two Row.four)
        (· ∈ (⟨.splat (.clamp 5), .splat (.clamp 7)⟩ : Box)) := by
  have computed :
      targets Row.cubes { Row.onLeft with regions := [⟨2⟩] } (Row.unit "relax" [⟨2⟩])
          { Row.around with domain := .coarserLevel 1 } = .ok (Row.underCube Row.two Row.four) :=
    rfl
  have indexed : Row.cubes.Indexed := Grid.indexed_iff.mpr rfl
  have regionAt : Row.cubes.region? ⟨2⟩ =
      some ⟨⟨2⟩, 1, ⟨.splat (.clamp 5), .splat (.clamp 7)⟩⟩ := rfl
  obtain ⟨_, unlessShown, _⟩ :=
    coarser_targets_cover indexed rfl regionAt rfl (by decide) (by decide) (by decide) computed
  refine ⟨computed, unlessShown fun axis => ?_⟩
  cases axis <;> decide

/-- Around a cube that begins and ends with coarse cells, the rim shows on the
coarser level. -/
theorem rim_shows_beneath_cube :
    targets Row.cubes { Row.onLeft with regions := [⟨1⟩] } (Row.unit "relax" [⟨1⟩])
        { Row.around with domain := .coarserLevel 1 } = .ok (Row.underCube .zero (.clamp 3)) ∧
      ¬ CoversOnly Row.cubes 0 1 (Row.underCube .zero (.clamp 3))
        (· ∈ (⟨.splat Row.two, .splat Row.four⟩ : Box)) := by
  refine ⟨rfl, fun coversOnly => ?_⟩
  obtain ⟨inner, inCube, encloses⟩ :=
    coversOnly _ List.mem_cons_self rfl _ rfl ⟨0, 0, 0⟩ (by decide)
  have quotient : 0 = inner.get .x / 2 :=
    (Grid.encloses_iff_get (by decide) (by decide)).mp encloses .x
  have starts : 2 ≤ inner.get .x := (Box.mem_iff_get.mp inCube .x).1
  omega

end MeshTasks
