import MeshTasks.Proofs.Mesh.Bounds
import MeshTasks.Proofs.Mesh.Halos

/-!
# The images of a level

On each axis on which a level repeats itself it is seen one extent of its domain
before itself and one behind. With itself these make three images for each such
axis, so that their number is a power of three. They lie side by side: no two of
them share a cell, and together they are the domain, widened by its extent on
the axes on which the level repeats itself.
-/

namespace MeshTasks

namespace Periodicity

/-- Whether a level repeats itself along an axis. -/
def along (periodic : Periodicity) : Axis → Bool
  | .x => periodic.x
  | .y => periodic.y
  | .z => periodic.z

/-- The number of axes along which a level repeats itself. -/
def count (periodic : Periodicity) : Nat :=
  Axis.all.countP periodic.along

private theorem mem_images_iff_get {periodic : Periodicity} {step : Vec} :
    step ∈ periodic.images ↔ ∀ axis, step.get axis ∈ steps (periodic.along axis) := by
  rw [mem_images, Axis.forall_iff]
  exact Iff.rfl

theorem length_images (periodic : Periodicity) : periodic.images.length = 3 ^ periodic.count := by
  obtain ⟨x, y, z⟩ := periodic
  revert x y z
  decide

theorem nodup_images (periodic : Periodicity) : periodic.images.Nodup := by
  obtain ⟨x, y, z⟩ := periodic
  revert x y z
  decide

private theorem zero_mem_images (periodic : Periodicity) : Vec.zero ∈ periodic.images := by
  obtain ⟨x, y, z⟩ := periodic
  revert x y z
  decide

/-- Along an axis there is a step forwards or backwards only if the level
repeats itself there. -/
private theorem val_of_mem_steps
    {isPeriodic : Bool} {step : Coord}
    (member : step ∈ steps isPeriodic) :
    step.val = 0 ∨ isPeriodic = true ∧ (step.val = -1 ∨ step.val = 1) := by
  revert isPeriodic step
  decide

end Periodicity

private theorem exists_step
    {isPeriodic : Bool} {low high value margin : Int}
    (marginEq : margin = if isPeriodic then high - low else 0)
    (near : low - margin ≤ value ∧ value < high + margin) :
    ∃ step ∈ Periodicity.steps isPeriodic,
      low ≤ value - step.val * (high - low) ∧ value - step.val * (high - low) < high := by
  cases isPeriodic with
  | false =>
      rw [if_neg Bool.false_ne_true] at marginEq
      refine ⟨.zero, by decide, ?_⟩
      have zero : Coord.zero.val = 0 := rfl
      rw [zero]
      omega
  | true =>
      rw [if_pos rfl] at marginEq
      by_cases below : value < low
      · refine ⟨⟨-1, by decide, by decide⟩, by decide, ?_⟩
        dsimp only
        omega
      · by_cases above : high ≤ value
        · refine ⟨.one, by decide, ?_⟩
          have one : Coord.one.val = 1 := rfl
          rw [one]
          omega
        · refine ⟨.zero, by decide, ?_⟩
          have zero : Coord.zero.val = 0 := rfl
          rw [zero]
          omega

namespace Level

variable {level : Level} {extent shift other : Vec} {shifts : List Vec} {cell : Cell}

theorem mem_domain_of_mem
    {held : Region}
    (inLevel : held ∈ level.regions)
    (inHeld : cell ∈ held.box) :
    cell ∈ level.domain := by
  refine Box.mem_iff_get.mpr fun axis => ?_
  have here := Box.mem_iff_get.mp inHeld axis
  have within := within_domain inLevel axis
  omega

theorem domain_holds_of_mem
    {held : Region}
    (inLevel : held ∈ level.regions) :
    level.domain.isEmpty = false := by
  obtain ⟨cell, inHeld⟩ :=
    Box.isEmpty_eq_false_iff_exists.mp (level.coherent.not_empty held inLevel)
  exact Box.isEmpty_eq_false_iff_exists.mpr ⟨cell, mem_domain_of_mem inLevel inHeld⟩

private theorem shiftsBy_iff_mem (shiftsOk : level.shifts = .ok shifts) :
    level.ShiftsBy shift ↔ shift ∈ Vec.zero :: shifts := by
  unfold ShiftsBy
  rw [shiftsOk, List.mem_cons]
  simp only [Except.ok.injEq, exists_eq_left']

section

variable (holds : level.domain.isEmpty = false)

include holds

private theorem get_extent_of_holds
    (measured : level.domain.extent = .ok extent)
    (axis : Axis) :
    (extent.get axis).val = (level.domain.high.get axis).val - (level.domain.low.get axis).val := by
  have spans := Box.isEmpty_eq_false_iff_get.mp holds axis
  rw [Box.get_extent measured]
  omega

/-- Along each axis a shift leads over one extent of the domain, if the level
repeats itself there, or nowhere. -/
private theorem ShiftsBy.get_cases
    (shifts : level.ShiftsBy shift)
    (axis : Axis) :
    (shift.get axis).val = 0 ∨
      level.periodic.along axis = true ∧
        ((shift.get axis).val =
            (level.domain.low.get axis).val - (level.domain.high.get axis).val ∨
          (shift.get axis).val =
            (level.domain.high.get axis).val - (level.domain.low.get axis).val) := by
  rcases shifts with rfl | ⟨all, allOk, member⟩
  · exact Or.inl (Vec.get_zero axis)
  · obtain ⟨extent, measured⟩ := exists_extent_of_shifts allOk
    obtain ⟨_, step, stepMember, stepOk⟩ := (mem_shifts_iff allOk measured).mp member
    have atAxis := Vec.get_mul stepOk axis
    rw [get_extent_of_holds holds measured] at atAxis
    rcases Periodicity.val_of_mem_steps (Periodicity.mem_images_iff_get.mp stepMember axis) with
      still | ⟨repeats, back | ahead⟩
    · rw [still] at atAxis
      omega
    · rw [back] at atAxis
      exact Or.inr ⟨repeats, Or.inl (by omega)⟩
    · rw [ahead] at atAxis
      exact Or.inr ⟨repeats, Or.inr (by omega)⟩

end

/-- No two images share a cell. -/
theorem shift_eq_of_unshift_mem
    (shifts : level.ShiftsBy shift)
    (otherShifts : level.ShiftsBy other)
    (inDomain : cell.unshift shift ∈ level.domain)
    (otherInDomain : cell.unshift other ∈ level.domain) :
    shift = other := by
  have holds := Box.isEmpty_eq_false_iff_exists.mpr ⟨_, inDomain⟩
  refine Vec.eq_of_get_eq fun axis => ?_
  have here := Box.mem_iff_get.mp inDomain axis
  have otherHere := Box.mem_iff_get.mp otherInDomain axis
  have shiftHere := shifts.get_cases holds axis
  have otherShiftHere := otherShifts.get_cases holds axis
  rw [Cell.get_unshift] at here otherHere
  omega

/-- How far the images of a level reach beyond its domain on an axis. -/
def margin (level : Level) (axis : Axis) : Int :=
  if level.periodic.along axis then
    (level.domain.high.get axis).val - (level.domain.low.get axis).val
  else
    0

theorem widened_of_unshift_mem
    (shifts : level.ShiftsBy shift)
    (inDomain : cell.unshift shift ∈ level.domain) :
    level.domain.Widened level.margin cell := by
  have holds := Box.isEmpty_eq_false_iff_exists.mpr ⟨_, inDomain⟩
  intro axis
  have here := Box.mem_iff_get.mp inDomain axis
  rw [Cell.get_unshift] at here
  unfold margin
  rcases shifts.get_cases holds axis with still | ⟨repeats, moved⟩
  · split <;> omega
  · rw [if_pos repeats]
    omega

theorem exists_shiftsBy_of_widened
    (shiftsOk : level.shifts = .ok shifts)
    (holds : level.domain.isEmpty = false)
    (near : level.domain.Widened level.margin cell) :
    ∃ shift, level.ShiftsBy shift ∧ cell.unshift shift ∈ level.domain := by
  obtain ⟨extent, offsets, measured, offsetsOk, _⟩ := shifts_eq_ok_iff.mp shiftsOk
  obtain ⟨⟨stepX, memberX, onX⟩, ⟨stepY, memberY, onY⟩, stepZ, memberZ, onZ⟩ :=
    Axis.forall_iff.mp fun axis => exists_step rfl (near axis)
  have isImage : (⟨stepX, stepY, stepZ⟩ : Vec) ∈ level.periodic.images :=
    Periodicity.mem_images.mpr ⟨memberX, memberY, memberZ⟩
  obtain ⟨offset, _, offsetOk⟩ := mapM_result_of_mem offsetsOk isImage
  refine ⟨offset, ?_, Box.mem_iff_get.mpr fun axis => ?_⟩
  · by_cases unshifted : offset = .zero
    · exact Or.inl unshifted
    · exact Or.inr
        ⟨_, shiftsOk, (mem_shifts_iff shiftsOk measured).mpr ⟨unshifted, _, isImage, offsetOk⟩⟩
  · rw [Cell.get_unshift, Vec.get_mul offsetOk, get_extent_of_holds holds measured]
    revert axis
    exact Axis.forall_iff.mpr ⟨onX, onY, onZ⟩

/-- There is one shift for each image of the level but itself. -/
theorem count_shifts
    (holds : level.domain.isEmpty = false)
    (shiftsOk : level.shifts = .ok shifts) :
    (Vec.zero :: shifts).Nodup ∧ shifts.length = 3 ^ level.periodic.count - 1 := by
  obtain ⟨extent, offsets, measured, offsetsOk, rfl⟩ := shifts_eq_ok_iff.mp shiftsOk
  have distinct : offsets.Nodup := by
    refine mapM_pairwise offsetsOk level.periodic.nodup_images fun leftOk rightOk different => ?_
    rintro rfl
    refine different (Vec.eq_of_get_eq fun axis => ?_)
    have spans := Box.isEmpty_eq_false_iff_get.mp holds axis
    have wide := get_extent_of_holds holds measured axis
    have same := (Vec.get_mul leftOk axis).symm.trans (Vec.get_mul rightOk axis)
    exact Int.eq_of_mul_eq_mul_right (by omega) same
  have zeroMember : Vec.zero ∈ offsets := by
    obtain ⟨offset, member, offsetOk⟩ :=
      mapM_result_of_mem offsetsOk level.periodic.zero_mem_images
    have isZero : offset = .zero := Vec.eq_of_get_eq fun axis => by
      rw [Vec.get_mul offsetOk, Vec.get_zero, Int.zero_mul]
    exact isZero ▸ member
  have others : (offsets.filter fun offset => decide (offset ≠ .zero)) = offsets.erase .zero := by
    rw [distinct.erase_eq_filter]
    exact List.filter_congr fun offset _ => decide_not
  have length : offsets.length = 3 ^ level.periodic.count := by
    rw [← level.periodic.length_images]
    exact (mapM_eq_ok_iff.mp offsetsOk).length_eq.symm
  rw [others, List.nodup_cons, List.length_erase_of_mem zeroMember, length]
  exact ⟨⟨distinct.not_mem_erase, distinct.erase _⟩, rfl⟩

/-- The opposite of a shift is a shift. -/
private theorem exists_neg_of_mem_shifts
    (shiftsOk : level.shifts = .ok shifts)
    (member : shift ∈ shifts) :
    ∃ opposite ∈ shifts, shift.neg = .ok opposite := by
  obtain ⟨opposite, oppositeMember, oppositeEq⟩ := exists_opposite_shift shiftsOk member
  exact ⟨opposite, oppositeMember, Vec.neg_eq_ok_iff.mpr (Axis.forall_iff.mp oppositeEq)⟩

end Level

/-- A level with regions has as many shifts as it has images beside itself, all
different, none of them zero, and each with its opposite. Its domain and the
images of that share no cell with each other, and hold just the cells of the
domain widened by its extent on each axis along which the level repeats
itself. -/
theorem images_tile
    {level : Level} {extent : Vec}
    (inhabited : level.regions ≠ [])
    (measured : level.domain.extent = .ok extent) :
    ∃ shifts, level.shifts = .ok shifts ∧
      shifts.length = 3 ^ level.periodic.count - 1 ∧
      (Vec.zero :: shifts).Nodup ∧
      (∀ shift ∈ shifts, ∃ opposite ∈ shifts, shift.neg = .ok opposite) ∧
      ((Vec.zero :: shifts).Pairwise fun left right => ∀ cell : Cell,
        ¬ (cell.unshift left ∈ level.domain ∧ cell.unshift right ∈ level.domain)) ∧
      ∀ cell : Cell,
        (∃ shift ∈ Vec.zero :: shifts, cell.unshift shift ∈ level.domain) ↔
          level.domain.Widened
            (fun axis => if level.periodic.along axis then (extent.get axis).val else 0) cell := by
  obtain ⟨shifts, shiftsOk⟩ := Level.exists_shifts measured
  obtain ⟨held, inLevel⟩ := List.exists_mem_of_ne_nil _ inhabited
  have holds := Level.domain_holds_of_mem inLevel
  obtain ⟨distinct, length⟩ := Level.count_shifts holds shiftsOk
  have marginEq : level.margin =
      fun axis => if level.periodic.along axis then (extent.get axis).val else 0 := by
    funext axis
    rw [Level.get_extent_of_holds holds measured]
    rfl
  refine ⟨shifts, shiftsOk, length, distinct,
    fun _ => Level.exists_neg_of_mem_shifts shiftsOk, ?_, fun cell => ?_⟩
  · refine distinct.imp_of_mem fun leftMember rightMember different cell inBoth => different ?_
    exact Level.shift_eq_of_unshift_mem ((Level.shiftsBy_iff_mem shiftsOk).mpr leftMember)
      ((Level.shiftsBy_iff_mem shiftsOk).mpr rightMember) inBoth.1 inBoth.2
  · rw [← marginEq]
    constructor
    · rintro ⟨shift, member, inDomain⟩
      exact Level.widened_of_unshift_mem ((Level.shiftsBy_iff_mem shiftsOk).mpr member) inDomain
    · intro near
      obtain ⟨shift, shiftsBy, inDomain⟩ :=
        Level.exists_shiftsBy_of_widened shiftsOk holds near
      exact ⟨shift, (Level.shiftsBy_iff_mem shiftsOk).mp shiftsBy, inDomain⟩

/-- The row, closed along `x` and along `y`. -/
def Row.torus : Level := { Row.level with periodic := ⟨true, true, false⟩ }

/-- The row has eight images beside itself; one of them holds a cell beyond its
corner, and none a cell above it. -/
theorem images_tile_torus :
    Row.torus.regions ≠ [] ∧ Row.torus.domain.extent = .ok ⟨Row.eight, Row.four, Row.four⟩ ∧
      ∃ shifts, Row.torus.shifts = .ok shifts ∧ shifts.length = 8 ∧ (Vec.zero :: shifts).Nodup ∧
        (∃ shift ∈ Vec.zero :: shifts, (⟨-8, 7, 3⟩ : Cell).unshift shift ∈ Row.torus.domain) ∧
          ¬ ∃ shift ∈ Vec.zero :: shifts, (⟨0, 0, 4⟩ : Cell).unshift shift ∈ Row.torus.domain := by
  have inhabited : Row.torus.regions ≠ [] := by decide
  have measured : Row.torus.domain.extent = .ok ⟨Row.eight, Row.four, Row.four⟩ := by decide
  obtain ⟨shifts, shiftsOk, length, distinct, _, _, holding⟩ := images_tile inhabited measured
  refine ⟨inhabited, measured, shifts, shiftsOk, length, distinct, (holding _).mpr fun axis => ?_,
    fun above => ?_⟩
  · cases axis <;> decide
  · have beyond := (holding _).mp above .z
    revert beyond
    decide

end MeshTasks
