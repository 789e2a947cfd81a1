import MeshTasks.Proofs.Mesh.Overlaps

/-!
# Arithmetic within bounds

A vector lies within a bound if none of its coordinates is farther from zero.
Each operation on vectors and boxes has a result as long as the bounds of what
goes into it add up to no more than the greatest coordinate, and its result lies
within their sum.
-/

namespace MeshTasks

theorem Coord.exists_checked
    {fault : Fault} {value : Int}
    (lower : -2147483648 ≤ value)
    (upper : value ≤ 2147483647) :
    ∃ coord, checked fault value = .ok coord :=
  ⟨⟨value, lower, upper⟩, checked_eq_ok_iff.mpr rfl⟩

/-! ## Vectors -/

namespace Vec

theorem exists_zipWithM
    {operation : Coord → Coord → Except Fault Coord} {left right : Vec}
    (each : ∀ axis, ∃ result, operation (left.get axis) (right.get axis) = .ok result) :
    ∃ result, zipWithM operation left right = .ok result := by
  obtain ⟨⟨x, xOk⟩, ⟨y, yOk⟩, z, zOk⟩ := Axis.forall_iff.mp each
  exact ⟨⟨x, y, z⟩, zipWithM_eq_ok_iff.mpr ⟨xOk, yOk, zOk⟩⟩

private theorem exists_mapM
    {operation : Coord → Except Fault Coord} {vec : Vec}
    (each : ∀ axis, ∃ result, operation (vec.get axis) = .ok result) :
    ∃ result, mapM operation vec = .ok result := by
  obtain ⟨⟨x, xOk⟩, ⟨y, yOk⟩, z, zOk⟩ := Axis.forall_iff.mp each
  exact ⟨⟨x, y, z⟩, mapM_eq_ok_iff.mpr ⟨xOk, yOk, zOk⟩⟩

/-- No coordinate is farther from zero than the bound. -/
def Within (bound : Int) (vec : Vec) : Prop :=
  ∀ axis, -bound ≤ (vec.get axis).val ∧ (vec.get axis).val ≤ bound

variable {bound reach : Int} {left right vec : Vec}

theorem Within.exists_neg (within : vec.Within bound) (fits : bound ≤ 2147483647) :
    ∃ negated, vec.neg = .ok negated ∧ negated.Within bound := by
  obtain ⟨negated, negatedOk⟩ : ∃ negated, vec.neg = .ok negated :=
    exists_mapM fun axis => by
      have here := within axis
      exact Coord.exists_checked (by omega) (by omega)
  refine ⟨negated, negatedOk, fun axis => ?_⟩
  have here := within axis
  rw [get_neg negatedOk]
  omega

section

variable (leftWithin : left.Within bound) (rightWithin : right.Within reach)
  (fits : bound + reach ≤ 2147483647)

include leftWithin rightWithin fits

private theorem Within.exists_add :
    ∃ sum, left.add right = .ok sum ∧ sum.Within (bound + reach) := by
  obtain ⟨sum, sumOk⟩ : ∃ sum, left.add right = .ok sum :=
    exists_zipWithM fun axis => by
      have leftHere := leftWithin axis
      have rightHere := rightWithin axis
      exact Coord.exists_checked (by omega) (by omega)
  refine ⟨sum, sumOk, fun axis => ?_⟩
  have leftHere := leftWithin axis
  have rightHere := rightWithin axis
  rw [get_add sumOk]
  omega

private theorem Within.exists_sub :
    ∃ difference, left.sub right = .ok difference ∧ difference.Within (bound + reach) := by
  obtain ⟨difference, differenceOk⟩ : ∃ difference, left.sub right = .ok difference :=
    exists_zipWithM fun axis => by
      have leftHere := leftWithin axis
      have rightHere := rightWithin axis
      exact Coord.exists_checked (by omega) (by omega)
  refine ⟨difference, differenceOk, fun axis => ?_⟩
  have leftHere := leftWithin axis
  have rightHere := rightWithin axis
  rw [get_sub differenceOk]
  omega

end

end Vec

/-! ## Boxes -/

namespace Box

theorem exists_dilate
    {box : Box} {width : Coord}
    (lowOk : ∀ axis, ∃ low, (box.low.get axis).sub width = .ok low)
    (highOk : ∀ axis, ∃ high, (box.high.get axis).add width = .ok high) :
    ∃ wider, box.dilate width = .ok wider := by
  obtain ⟨low, lowEq⟩ : ∃ low, box.low.sub (.splat width) = .ok low :=
    Vec.exists_zipWithM fun axis => by
      rw [Vec.get_splat]
      exact lowOk axis
  obtain ⟨high, highEq⟩ : ∃ high, box.high.add (.splat width) = .ok high :=
    Vec.exists_zipWithM fun axis => by
      rw [Vec.get_splat]
      exact highOk axis
  exact ⟨⟨low, high⟩, bind_eq_ok_iff.mpr ⟨low, lowEq, bind_eq_ok_iff.mpr ⟨high, highEq, rfl⟩⟩⟩

theorem exists_dilateAxis
    {box : Box} {width : Coord} {axis : Axis}
    (lowOk : ∃ low, (box.low.get axis).sub width = .ok low)
    (highOk : ∃ high, (box.high.get axis).add width = .ok high) :
    ∃ wider, box.dilateAxis axis width = .ok wider := by
  obtain ⟨low, lowEq⟩ := lowOk
  obtain ⟨high, highEq⟩ := highOk
  exact ⟨⟨box.low.set axis low, box.high.set axis high⟩,
    bind_eq_ok_iff.mpr ⟨low, lowEq, bind_eq_ok_iff.mpr ⟨high, highEq, rfl⟩⟩⟩

/-- Neither corner is farther from the origin than the bound. -/
structure Within (bound : Int) (box : Box) : Prop where
  low : box.low.Within bound
  high : box.high.Within bound

variable {bound reach : Int} {box : Box} {width : Coord} {offset : Vec}

theorem Within.nonneg (within : box.Within bound) : 0 ≤ bound := by
  have here := within.low .x
  omega

theorem Within.mono (within : box.Within bound) (wider : bound ≤ reach) : box.Within reach := by
  refine ⟨fun axis => ?_, fun axis => ?_⟩
  · have here := within.low axis
    omega
  · have here := within.high axis
    omega

theorem Within.hull {left right : Box} (leftWithin : left.Within bound)
    (rightWithin : right.Within bound) : (left.hull right).Within bound := by
  unfold Box.hull
  split
  · exact rightWithin
  · split
    · exact leftWithin
    · refine ⟨fun axis => ?_, fun axis => ?_⟩
      · have leftHere := leftWithin.low axis
        have rightHere := rightWithin.low axis
        rw [Vec.get_min]
        omega
      · have leftHere := leftWithin.high axis
        have rightHere := rightWithin.high axis
        rw [Vec.get_max]
        omega

theorem Within.exists_extent (within : box.Within bound) (fits : 2 * bound ≤ 2147483647) :
    ∃ extent, box.extent = .ok extent := by
  obtain ⟨difference, subtracted, _⟩ := within.high.exists_sub within.low (by omega)
  exact ⟨_, bind_eq_ok_iff.mpr ⟨difference, subtracted, rfl⟩⟩

theorem Within.exists_translate
    (within : box.Within bound)
    (offsetWithin : offset.Within reach)
    (fits : bound + reach ≤ 2147483647) :
    ∃ moved, box.translate offset = .ok moved := by
  obtain ⟨low, lowOk, _⟩ := within.low.exists_add offsetWithin fits
  obtain ⟨high, highOk, _⟩ := within.high.exists_add offsetWithin fits
  exact ⟨⟨low, high⟩, bind_eq_ok_iff.mpr ⟨low, lowOk, bind_eq_ok_iff.mpr ⟨high, highOk, rfl⟩⟩⟩

section

variable (within : box.Within bound) (lower : -reach ≤ width.val) (upper : width.val ≤ reach)
  (fits : bound + reach ≤ 2147483647)

include within lower upper fits

theorem Within.exists_dilate :
    ∃ wider, box.dilate width = .ok wider ∧ wider.Within (bound + reach) := by
  obtain ⟨wider, dilated⟩ : ∃ wider, box.dilate width = .ok wider := by
    refine Box.exists_dilate (fun axis => ?_) (fun axis => ?_)
    · have lowHere := within.low axis
      exact Coord.exists_checked (by omega) (by omega)
    · have highHere := within.high axis
      exact Coord.exists_checked (by omega) (by omega)
  refine ⟨wider, dilated, fun axis => ?_, fun axis => ?_⟩
  · have spec := (dilate_spec dilated axis).1
    have here := within.low axis
    omega
  · have spec := (dilate_spec dilated axis).2
    have here := within.high axis
    omega

theorem Within.exists_dilateAxis (axis : Axis) :
    ∃ wider, box.dilateAxis axis width = .ok wider ∧ wider.Within (bound + reach) := by
  have lowHere := within.low axis
  have highHere := within.high axis
  obtain ⟨wider, dilated⟩ : ∃ wider, box.dilateAxis axis width = .ok wider :=
    Box.exists_dilateAxis (Coord.exists_checked (by omega) (by omega))
      (Coord.exists_checked (by omega) (by omega))
  refine ⟨wider, dilated, fun other => ?_, fun other => ?_⟩
  · have spec := (dilateAxis_spec dilated other).1
    have here := within.low other
    split at spec <;> omega
  · have spec := (dilateAxis_spec dilated other).2
    have here := within.high other
    split at spec <;> omega

end

end Box

/-! ## Shifts -/

namespace Level

variable {level : Level} {extent : Vec}

/-- Where the domain can be measured, all images of the level can be reached. -/
theorem exists_shifts (measured : level.domain.extent = .ok extent) :
    ∃ shifts, level.shifts = .ok shifts := by
  have reached : ∀ step ∈ level.periodic.images, ∃ offset, step.mul extent = .ok offset := by
    intro step member
    refine Vec.exists_zipWithM fun axis => ?_
    have spans := Box.get_extent measured axis
    have upper := (extent.get axis).upper
    rcases Periodicity.unit_of_mem_images member axis with back | still | ahead
    · exact Coord.exists_checked (by rw [back]; omega) (by rw [back]; omega)
    · exact Coord.exists_checked (by rw [still]; omega) (by rw [still]; omega)
    · exact Coord.exists_checked (by rw [ahead]; omega) (by rw [ahead]; omega)
  obtain ⟨offsets, offsetsOk⟩ := exists_results_of_mapM reached
  exact ⟨_, shifts_eq_ok_iff.mpr ⟨extent, offsets, measured, offsetsOk, rfl⟩⟩

/-- The shifts of a level whose domain lies within a bound lead no farther than
twice the bound. -/
theorem exists_shifts_within
    {bound : Int}
    (domainWithin : level.domain.Within bound)
    (fits : 2 * bound ≤ 2147483647) :
    ∃ shifts, level.shifts = .ok shifts ∧ ∀ shift ∈ shifts, shift.Within (2 * bound) := by
  obtain ⟨extent, measured⟩ := domainWithin.exists_extent fits
  obtain ⟨shifts, shiftsOk⟩ := exists_shifts measured
  refine ⟨shifts, shiftsOk, fun shift member axis => ?_⟩
  obtain ⟨_, step, stepMember, stepOk⟩ := (mem_shifts_iff shiftsOk measured).mp member
  have spans := Box.get_extent measured axis
  have lowHere := domainWithin.low axis
  have highHere := domainWithin.high axis
  rw [Vec.get_mul stepOk]
  rcases Periodicity.unit_of_mem_images stepMember axis with back | still | ahead
  · rw [back]
    omega
  · rw [still]
    omega
  · rw [ahead]
    omega

end Level

end MeshTasks
