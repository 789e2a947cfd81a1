import Mathlib.Data.List.Pairwise
import Mathlib.Data.List.TakeWhile
import MeshTasks.Mesh.Level
import MeshTasks.Proofs.Outcome
import MeshTasks.Proofs.Selection

/-!
# Overlaps

The search in a stretch of the regions of a level finds all regions that share a
cell with a box. Boxes are compared axis by axis. The images of a level lie
opposite to each other, and each lies beside the level.
-/

namespace MeshTasks

theorem Axis.forall_iff {holds : Axis → Prop} :
    (∀ axis, holds axis) ↔ holds .x ∧ holds .y ∧ holds .z := by
  constructor
  · intro all
    exact ⟨all .x, all .y, all .z⟩
  · intro each axis
    obtain ⟨onX, onY, onZ⟩ := each
    cases axis with
    | x => exact onX
    | y => exact onY
    | z => exact onZ

namespace Vec

theorem get_zero (axis : Axis) : (zero.get axis).val = 0 := by
  cases axis <;> rfl

theorem get_add
    {left right result : Vec}
    (added : left.add right = .ok result)
    (axis : Axis) :
    (result.get axis).val = (left.get axis).val + (right.get axis).val := by
  revert axis
  exact Axis.forall_iff.mpr (add_eq_ok_iff.mp added)

theorem get_sub
    {left right result : Vec}
    (subtracted : left.sub right = .ok result)
    (axis : Axis) :
    (result.get axis).val = (left.get axis).val - (right.get axis).val := by
  revert axis
  exact Axis.forall_iff.mpr (sub_eq_ok_iff.mp subtracted)

theorem get_mul
    {left right result : Vec}
    (multiplied : left.mul right = .ok result)
    (axis : Axis) :
    (result.get axis).val = (left.get axis).val * (right.get axis).val := by
  revert axis
  exact Axis.forall_iff.mpr (mul_eq_ok_iff.mp multiplied)

theorem get_neg
    {vec result : Vec}
    (negated : vec.neg = .ok result)
    (axis : Axis) :
    (result.get axis).val = -(vec.get axis).val := by
  revert axis
  exact Axis.forall_iff.mpr (neg_eq_ok_iff.mp negated)

theorem get_min (left right : Vec) (axis : Axis) :
    ((min left right).get axis).val = min (left.get axis).val (right.get axis).val := by
  cases axis <;> simp only [get, x_min, y_min, z_min, Coord.val_min]

theorem get_max (left right : Vec) (axis : Axis) :
    ((max left right).get axis).val = max (left.get axis).val (right.get axis).val := by
  cases axis <;> simp only [get, x_max, y_max, z_max, Coord.val_max]

theorem get_splat (coord : Coord) (axis : Axis) : (splat coord).get axis = coord := by
  cases axis <;> rfl

theorem eq_of_get_eq
    {left right : Vec}
    (same : ∀ axis, (left.get axis).val = (right.get axis).val) :
    left = right := by
  obtain ⟨onX, onY, onZ⟩ := Axis.forall_iff.mp same
  exact Vec.ext (Coord.ext onX) (Coord.ext onY) (Coord.ext onZ)

end Vec

namespace Box

theorem isEmpty_eq_false_iff_get {box : Box} :
    box.isEmpty = false ↔ ∀ axis, (box.low.get axis).val < (box.high.get axis).val := by
  rw [isEmpty_eq_false_iff, Axis.forall_iff]
  exact and_assoc

theorem isEmpty_of_get
    {box : Box} (axis : Axis)
    (inverted : (box.high.get axis).val ≤ (box.low.get axis).val) :
    box.isEmpty = true := by
  by_contra holds
  have spans := isEmpty_eq_false_iff_get.mp (Bool.eq_false_iff.mpr holds) axis
  omega

/-- Boxes that hold cells share one exactly when on every axis each starts
before the other ends. -/
theorem overlaps_eq_true_iff {left right : Box} :
    left.overlaps right = true ↔
      left.isEmpty = false ∧ right.isEmpty = false ∧
        ∀ axis, (left.low.get axis).val < (right.high.get axis).val ∧
          (right.low.get axis).val < (left.high.get axis).val := by
  have sharing :
      left.overlaps right = true ↔
        Box.isEmpty ⟨max left.low right.low, min left.high right.high⟩ = false := by
    unfold overlaps intersect?
    cases empty : Box.isEmpty ⟨max left.low right.low, min left.high right.high⟩ with
    | false => simp [empty]
    | true => simp [empty]
  rw [sharing, isEmpty_eq_false_iff_get, isEmpty_eq_false_iff_get, isEmpty_eq_false_iff_get,
    ← forall_and, ← forall_and]
  apply forall_congr'
  intro axis
  rw [Vec.get_max, Vec.get_min]
  omega

theorem overlaps_comm {left right : Box} : left.overlaps right = right.overlaps left := by
  rw [Bool.eq_iff_iff, overlaps_eq_true_iff, overlaps_eq_true_iff]
  constructor
  · rintro ⟨leftHolds, rightHolds, shared⟩
    exact ⟨rightHolds, leftHolds, fun axis => (shared axis).symm⟩
  · rintro ⟨rightHolds, leftHolds, shared⟩
    exact ⟨leftHolds, rightHolds, fun axis => (shared axis).symm⟩

theorem translate_spec
    {box moved : Box} {offset : Vec}
    (translated : box.translate offset = .ok moved)
    (axis : Axis) :
    (moved.low.get axis).val = (box.low.get axis).val + (offset.get axis).val ∧
      (moved.high.get axis).val = (box.high.get axis).val + (offset.get axis).val := by
  obtain ⟨low, lowOk, rest⟩ := bind_eq_ok_iff.mp translated
  obtain ⟨high, highOk, assembled⟩ := bind_eq_ok_iff.mp rest
  cases assembled
  exact ⟨Vec.get_add lowOk axis, Vec.get_add highOk axis⟩

theorem dilate_spec
    {box wider : Box} {width : Coord}
    (dilated : box.dilate width = .ok wider)
    (axis : Axis) :
    (wider.low.get axis).val = (box.low.get axis).val - width.val ∧
      (wider.high.get axis).val = (box.high.get axis).val + width.val := by
  obtain ⟨low, lowOk, rest⟩ := bind_eq_ok_iff.mp dilated
  obtain ⟨high, highOk, assembled⟩ := bind_eq_ok_iff.mp rest
  cases assembled
  have atLow := Vec.get_sub lowOk axis
  have atHigh := Vec.get_add highOk axis
  rw [Vec.get_splat] at atLow atHigh
  exact ⟨atLow, atHigh⟩

theorem dilateAxis_spec
    {box wider : Box} {dilatedAxis : Axis} {width : Coord}
    (dilated : box.dilateAxis dilatedAxis width = .ok wider)
    (axis : Axis) :
    (wider.low.get axis).val =
        (box.low.get axis).val - (if axis = dilatedAxis then width.val else 0) ∧
      (wider.high.get axis).val =
        (box.high.get axis).val + (if axis = dilatedAxis then width.val else 0) := by
  obtain ⟨low, lowOk, rest⟩ := bind_eq_ok_iff.mp dilated
  obtain ⟨high, highOk, assembled⟩ := bind_eq_ok_iff.mp rest
  cases assembled
  have atLow : low.val = (box.low.get dilatedAxis).val - width.val :=
    Coord.checked_eq_ok_iff.mp lowOk
  have atHigh : high.val = (box.high.get dilatedAxis).val + width.val :=
    Coord.checked_eq_ok_iff.mp highOk
  cases dilatedAxis <;> cases axis <;> simp [Vec.get, Vec.set] at * <;> omega

theorem get_extent
    {box : Box} {extent : Vec}
    (measured : box.extent = .ok extent)
    (axis : Axis) :
    (extent.get axis).val = max ((box.high.get axis).val - (box.low.get axis).val) 0 := by
  revert axis
  exact Axis.forall_iff.mpr (extent_spec measured)

end Box

namespace Periodicity

private theorem exists_opposite_step
    {isPeriodic : Bool} {step : Coord}
    (member : step ∈ steps isPeriodic) :
    ∃ opposite ∈ steps isPeriodic, opposite.val = -step.val := by
  have closed :
      ∀ step ∈ steps isPeriodic, ∃ opposite ∈ steps isPeriodic, opposite.val = -step.val := by
    cases isPeriodic with
    | false => decide
    | true => decide
  exact closed step member

theorem mem_images {periodic : Periodicity} {step : Vec} :
    step ∈ periodic.images ↔
      step.x ∈ steps periodic.x ∧ step.y ∈ steps periodic.y ∧ step.z ∈ steps periodic.z := by
  obtain ⟨stepX, stepY, stepZ⟩ := step
  unfold images
  simp

/-- With each image of a level its opposite is one. -/
private theorem exists_opposite_image
    {periodic : Periodicity} {step : Vec}
    (member : step ∈ periodic.images) :
    ∃ opposite ∈ periodic.images, ∀ axis, (opposite.get axis).val = -(step.get axis).val := by
  obtain ⟨onX, onY, onZ⟩ := mem_images.mp member
  obtain ⟨oppositeX, memberX, valueX⟩ := exists_opposite_step onX
  obtain ⟨oppositeY, memberY, valueY⟩ := exists_opposite_step onY
  obtain ⟨oppositeZ, memberZ, valueZ⟩ := exists_opposite_step onZ
  exact ⟨⟨oppositeX, oppositeY, oppositeZ⟩, mem_images.mpr ⟨memberX, memberY, memberZ⟩,
    Axis.forall_iff.mpr ⟨valueX, valueY, valueZ⟩⟩

/-- The images of a level are one step away on each axis, or none. -/
theorem unit_of_mem_images
    {periodic : Periodicity} {step : Vec}
    (member : step ∈ periodic.images)
    (axis : Axis) :
    (step.get axis).val = -1 ∨ (step.get axis).val = 0 ∨ (step.get axis).val = 1 := by
  have single : ∀ isPeriodic, ∀ coord ∈ steps isPeriodic,
      coord.val = -1 ∨ coord.val = 0 ∨ coord.val = 1 := by
    decide
  obtain ⟨onX, onY, onZ⟩ := mem_images.mp member
  cases axis with
  | x => exact single _ _ onX
  | y => exact single _ _ onY
  | z => exact single _ _ onZ

end Periodicity

/-- Subtraction that stops at the bounds does not pass a coordinate that the
difference does not pass. -/
private theorem Coord.saturatingSub_le
    {left right bound : Coord}
    (below : left.val - right.val ≤ bound.val) :
    left.saturatingSub right ≤ bound := by
  have lower := bound.lower
  have upper := bound.upper
  rw [Coord.le_iff]
  unfold saturatingSub clamp
  split
  · dsimp only
    omega
  · split
    · dsimp only
      omega
    · exact below

namespace Level

private theorem pairwise_starts (level : Level) :
    level.regions.Pairwise fun left right => left.box.low.x.val ≤ right.box.low.x.val := by
  refine level.coherent.ordered.imp fun {left right} precedes => ?_
  simp only [Region.precedes, Bool.or_eq_true, Bool.and_eq_true, decide_eq_true_eq,
    Coord.lt_iff, Coord.ext_iff] at precedes
  omega

/-- A region that shares a cell with a box starts in the stretch of the level
that is searched. -/
private theorem starts_within_window
    {level : Level} {box : Box} {region : Region}
    (member : region ∈ level.regions)
    (overlaps : region.box.overlaps box = true) :
    ¬ region.box.low.x < box.low.x.saturatingSub level.widest ∧
      region.box.low.x < box.high.x := by
  obtain ⟨_, _, shared⟩ := Box.overlaps_eq_true_iff.mp overlaps
  have sharedX : region.box.low.x.val < box.high.x.val ∧ box.low.x.val < region.box.high.x.val :=
    shared .x
  have width := level.coherent.within_widest region member
  have reaches : box.low.x.val - level.widest.val ≤ region.box.low.x.val := by
    omega
  have start := Coord.le_iff.mp (Coord.saturatingSub_le reaches)
  simp only [Coord.lt_iff]
  exact ⟨Int.not_lt.mpr start, sharedX.1⟩

/-- The search finds what looking through all regions of the level finds, in the
same order. -/
theorem selectOverlapping_eq_filter (level : Level) (box : Box) :
    level.selectOverlapping box =
      level.regions.filter fun region => region.box.overlaps box := by
  unfold selectOverlapping
  by_cases empty : box.isEmpty = true
  · rw [if_pos empty, eq_comm, List.filter_eq_nil_iff]
    intro region _ overlaps
    have holds := (Box.overlaps_eq_true_iff.mp overlaps).2.1
    rw [empty] at holds
    cases holds
  · rw [if_neg empty]
    have window := fun region member => @starts_within_window level box region member
    refine (filter_takeWhile_of_pairwise ?_ fun region inRest overlaps => ?_).trans
      (filter_dropWhile_of_not fun region member overlaps => ?_)
    · refine (level.pairwise_starts.sublist (List.dropWhile_sublist _)).imp ?_
      intro left right ordered rightWithin
      rw [decide_eq_true_eq, Coord.lt_iff] at rightWithin ⊢
      omega
    · have member := (List.dropWhile_sublist _).mem inRest
      exact decide_eq_true (window region member overlaps).2
    · exact decide_eq_false (window region member overlaps).1

theorem mem_selectOverlapping {level : Level} {box : Box} {region : Region} :
    region ∈ level.selectOverlapping box ↔
      region ∈ level.regions ∧ region.box.overlaps box = true := by
  rw [selectOverlapping_eq_filter, List.mem_filter]

/-- The search with a box that shares a cell with every region passes over
none. -/
theorem selectOverlapping_eq_regions
    {level : Level} {box : Box}
    (overlap : ∀ region ∈ level.regions, region.box.overlaps box = true) :
    level.selectOverlapping box = level.regions := by
  rw [selectOverlapping_eq_filter, List.filter_eq_self]
  exact overlap

theorem shifts_eq_ok_iff {level : Level} {shifts : List Vec} :
    level.shifts = .ok shifts ↔
      ∃ extent offsets, level.domain.extent = .ok extent ∧
        (level.periodic.images.mapM fun step => step.mul extent) = .ok offsets ∧
          shifts = offsets.filter fun offset => decide (offset ≠ .zero) := by
  constructor
  · intro shiftsOk
    obtain ⟨extent, measured, rest⟩ := bind_eq_ok_iff.mp shiftsOk
    obtain ⟨offsets, offsetsOk, filtered⟩ := bind_eq_ok_iff.mp rest
    cases filtered
    exact ⟨extent, offsets, measured, offsetsOk, rfl⟩
  · rintro ⟨extent, offsets, measured, offsetsOk, rfl⟩
    exact bind_eq_ok_iff.mpr ⟨extent, measured, bind_eq_ok_iff.mpr ⟨offsets, offsetsOk, rfl⟩⟩

/-- The shifts of a level lead over its extent to the images that lie
elsewhere. -/
theorem mem_shifts_iff
    {level : Level} {shifts : List Vec} {extent shift : Vec}
    (shiftsOk : level.shifts = .ok shifts)
    (measured : level.domain.extent = .ok extent) :
    shift ∈ shifts ↔
      shift ≠ .zero ∧ ∃ step ∈ level.periodic.images, step.mul extent = .ok shift := by
  obtain ⟨_, offsets, sameExtent, offsetsOk, rfl⟩ := shifts_eq_ok_iff.mp shiftsOk
  rw [measured] at sameExtent
  cases sameExtent
  rw [List.mem_filter, decide_eq_true_eq, and_comm]
  refine and_congr_right fun _ => ⟨exists_of_mem_mapM offsetsOk, ?_⟩
  rintro ⟨step, stepMember, stepOk⟩
  obtain ⟨offset, offsetMember, offsetOk⟩ := mapM_result_of_mem offsetsOk stepMember
  rw [stepOk] at offsetOk
  cases offsetOk
  exact offsetMember

theorem exists_extent_of_shifts
    {level : Level} {shifts : List Vec}
    (shiftsOk : level.shifts = .ok shifts) :
    ∃ extent, level.domain.extent = .ok extent := by
  obtain ⟨extent, _, measured, _⟩ := shifts_eq_ok_iff.mp shiftsOk
  exact ⟨extent, measured⟩

/-- The shifts of a level are closed under negation. -/
theorem exists_opposite_shift
    {level : Level} {shifts : List Vec} {shift : Vec}
    (shiftsOk : level.shifts = .ok shifts)
    (member : shift ∈ shifts) :
    ∃ opposite ∈ shifts, ∀ axis, (opposite.get axis).val = -(shift.get axis).val := by
  obtain ⟨extent, offsets, measured, offsetsOk, _⟩ := shifts_eq_ok_iff.mp shiftsOk
  simp only [mem_shifts_iff shiftsOk measured] at member ⊢
  obtain ⟨notZero, step, stepMember, stepOk⟩ := member
  obtain ⟨back, backMember, backEq⟩ := Periodicity.exists_opposite_image stepMember
  obtain ⟨opposite, _, oppositeOk⟩ := mapM_result_of_mem offsetsOk backMember
  have oppositeEq : ∀ axis, (opposite.get axis).val = -(shift.get axis).val := by
    intro axis
    rw [Vec.get_mul oppositeOk axis, Vec.get_mul stepOk axis, backEq axis, Int.neg_mul]
  refine ⟨opposite, ⟨?_, back, backMember, oppositeOk⟩, oppositeEq⟩
  intro isZero
  apply notZero
  apply Vec.eq_of_get_eq
  intro axis
  have atAxis := oppositeEq axis
  rw [isZero, Vec.get_zero] at atAxis
  rw [Vec.get_zero]
  omega

/-- A shift to an image of the level, or none at all. -/
def ShiftsBy (level : Level) (shift : Vec) : Prop :=
  shift = .zero ∨ ∃ shifts, level.shifts = .ok shifts ∧ shift ∈ shifts

theorem ShiftsBy.exists_opposite
    {level : Level} {shift : Vec}
    (shifts : level.ShiftsBy shift) :
    ∃ opposite, level.ShiftsBy opposite ∧
      ∀ axis, (opposite.get axis).val = -(shift.get axis).val := by
  rcases shifts with rfl | ⟨all, allOk, member⟩
  · refine ⟨.zero, Or.inl rfl, fun axis => ?_⟩
    rw [Vec.get_zero, Int.neg_zero]
  · obtain ⟨opposite, oppositeMember, oppositeEq⟩ := exists_opposite_shift allOk member
    exact ⟨opposite, Or.inr ⟨all, allOk, oppositeMember⟩, oppositeEq⟩

section

variable {level : Level} {region held : Region} {shift : Vec}

theorem within_domain
    (member : region ∈ level.regions)
    (axis : Axis) :
    (level.domain.low.get axis).val ≤ (region.box.low.get axis).val ∧
      (region.box.high.get axis).val ≤ (level.domain.high.get axis).val := by
  have holds := level.coherent.not_empty region member
  have inside := Box.contains_iff_corners.mp (level.coherent.in_domain region member)
  rw [holds, or_iff_right Bool.false_ne_true] at inside
  cases axis <;> simp only [Vec.get] <;> omega

/-- A shift moves the domain off itself on some axis. -/
theorem exists_axis_of_shift
    {shifts : List Vec}
    (shiftsOk : level.shifts = .ok shifts)
    (member : shift ∈ shifts) :
    ∃ axis,
      (level.domain.high.get axis).val - (level.domain.low.get axis).val ≤ (shift.get axis).val ∨
        (shift.get axis).val ≤
          (level.domain.low.get axis).val - (level.domain.high.get axis).val := by
  obtain ⟨extent, measured⟩ := exists_extent_of_shifts shiftsOk
  obtain ⟨notZero, step, stepMember, stepOk⟩ := (mem_shifts_iff shiftsOk measured).mp member
  -- A shift that stays within the extent of the domain has no step on any axis.
  by_contra within
  simp only [not_exists, not_or, Int.not_le] at within
  apply notZero
  refine Vec.eq_of_get_eq fun axis => ?_
  have withinHere := within axis
  have spans := Box.get_extent measured axis
  have atAxis := Vec.get_mul stepOk axis
  rw [Vec.get_zero]
  rcases Periodicity.unit_of_mem_images stepMember axis with back | still | ahead
  · rw [back] at atAxis
    omega
  · rw [still] at atAxis
    omega
  · rw [ahead] at atAxis
    omega

/-- On a level whose regions share no cell, a region that meets another at a
shift meets itself at no shift. -/
theorem eq_of_image_shares
    (disjoint : level.regions.Pairwise fun left right => left.box.overlaps right.box = false)
    (member : region ∈ level.regions)
    (heldMember : held ∈ level.regions)
    (shifts : level.ShiftsBy shift)
    (shares : ∀ axis,
      (region.box.low.get axis).val - (shift.get axis).val < (held.box.high.get axis).val ∧
        (held.box.low.get axis).val < (region.box.high.get axis).val - (shift.get axis).val) :
    shift = .zero ∧ held = region := by
  rcases shifts with rfl | ⟨all, allOk, inAll⟩
  · refine ⟨rfl, ?_⟩
    simp only [Vec.get_zero, Int.sub_zero] at shares
    have overlap : region.box.overlaps held.box = true :=
      Box.overlaps_eq_true_iff.mpr ⟨level.coherent.not_empty region member,
        level.coherent.not_empty held heldMember, shares⟩
    by_contra different
    have apart : Std.Symm fun left right : Region => left.box.overlaps right.box = false :=
      ⟨fun _ _ leftRight => Box.overlaps_comm.trans leftRight⟩
    have noOverlap := disjoint.forall member heldMember (Ne.symm different)
    rw [overlap] at noOverlap
    cases noOverlap
  · obtain ⟨axis, moved⟩ := exists_axis_of_shift allOk inAll
    have sharesHere := shares axis
    have regionHere := within_domain member axis
    have heldHere := within_domain heldMember axis
    omega

end

end Level

end MeshTasks
