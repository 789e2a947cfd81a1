import Mathlib.Data.Nat.Init
import MeshTasks.Proofs.Mesh.Reach

/-!
# Boxes carried between levels

A coarse cell holds the cells whose coordinates, divided by the ratio and
rounded down, are its own. A box carried down to a coarser level holds just the
coarse cells that hold a cell of the box; carried up to a finer level, it holds
just the fine cells that lie in a cell of the box. This goes for any number of
levels on the way.
-/

namespace MeshTasks

theorem Cell.get_coarse (cell : Cell) (ratio : Vec) (axis : Axis) :
    (cell.coarse ratio).get axis = cell.get axis / (ratio.get axis).val := by
  cases axis <;> rfl

theorem Cell.eq_iff_get {left right : Cell} :
    left = right ↔ ∀ axis, left.get axis = right.get axis := by
  rw [Axis.forall_iff, Cell.ext_iff]
  exact Iff.rfl

/-- A cell may be chosen axis by axis. -/
theorem Cell.exists_iff_forall_axis {holds : Axis → Int → Prop} :
    (∃ cell : Cell, ∀ axis, holds axis (cell.get axis)) ↔ ∀ axis, ∃ value, holds axis value := by
  constructor
  · rintro ⟨cell, all⟩ axis
    exact ⟨cell.get axis, all axis⟩
  · intro each
    obtain ⟨⟨x, onX⟩, ⟨y, onY⟩, z, onZ⟩ := Axis.forall_iff.mp each
    exact ⟨⟨x, y, z⟩, Axis.forall_iff.mpr ⟨onX, onY, onZ⟩⟩

theorem Coord.val_divFloor
    {coord divisor quotient : Coord}
    (divided : coord.divFloor divisor = .ok quotient) :
    quotient.val = coord.val / divisor.val := by
  unfold divFloor at divided
  split at divided
  · cases divided
  · exact checked_eq_ok_iff.mp divided

private theorem Coord.val_divCeil
    {coord divisor quotient : Coord}
    (divided : coord.divCeil divisor = .ok quotient) :
    quotient.val = -(-coord.val / divisor.val) := by
  obtain ⟨negated, negatedOk, rest⟩ := bind_eq_ok_iff.mp divided
  obtain ⟨floor, floorOk, quotientOk⟩ := bind_eq_ok_iff.mp rest
  have negatedEq : negated.val = -coord.val := checked_eq_ok_iff.mp negatedOk
  rw [← negatedEq, ← val_divFloor floorOk]
  exact checked_eq_ok_iff.mp quotientOk

private theorem Vec.get_zipWithM
    {operation : Coord → Coord → Except Fault Coord} {left right result : Vec}
    (zipped : zipWithM operation left right = .ok result)
    (axis : Axis) :
    operation (left.get axis) (right.get axis) = .ok (result.get axis) := by
  revert axis
  exact Axis.forall_iff.mpr (zipWithM_eq_ok_iff.mp zipped)

theorem Vec.get_pos_of_isPositive
    {ratio : Vec}
    (positive : ratio.isPositive = true)
    (axis : Axis) :
    0 < (ratio.get axis).val := by
  simp only [isPositive, Bool.and_eq_true, decide_eq_true_eq, and_assoc] at positive
  revert axis
  exact Axis.forall_iff.mpr positive

/-! ## One step -/

namespace Box

section

variable {box coarse fine : Box} {ratio : Vec}

theorem coarsen_spec
    (coarsened : box.coarsen ratio = .ok coarse)
    (axis : Axis) :
    (coarse.low.get axis).val = (box.low.get axis).val / (ratio.get axis).val ∧
      (coarse.high.get axis).val = -(-(box.high.get axis).val / (ratio.get axis).val) := by
  obtain ⟨low, lowOk, rest⟩ := bind_eq_ok_iff.mp coarsened
  obtain ⟨high, highOk, assembled⟩ := bind_eq_ok_iff.mp rest
  cases assembled
  exact ⟨Coord.val_divFloor (Vec.get_zipWithM lowOk axis),
    Coord.val_divCeil (Vec.get_zipWithM highOk axis)⟩

private theorem refine_spec
    (refined : box.refine ratio = .ok fine)
    (axis : Axis) :
    (fine.low.get axis).val = (box.low.get axis).val * (ratio.get axis).val ∧
      (fine.high.get axis).val = (box.high.get axis).val * (ratio.get axis).val := by
  obtain ⟨low, lowOk, rest⟩ := bind_eq_ok_iff.mp refined
  obtain ⟨high, highOk, assembled⟩ := bind_eq_ok_iff.mp rest
  cases assembled
  exact ⟨Vec.get_mul lowOk axis, Vec.get_mul highOk axis⟩

variable (positive : ratio.isPositive = true)

include positive

/-- A coarsened box holds the coarse cells that hold a cell of the box. -/
theorem mem_coarsen_iff
    {cell : Cell}
    (holds : box.isEmpty = false)
    (coarsened : box.coarsen ratio = .ok coarse) :
    cell ∈ coarse ↔ ∃ held ∈ box, held.coarse ratio = cell := by
  have choice :
      (∃ held ∈ box, held.coarse ratio = cell) ↔
        ∀ axis, ∃ value, ((box.low.get axis).val ≤ value ∧ value < (box.high.get axis).val) ∧
          value / (ratio.get axis).val = cell.get axis := by
    rw [← Cell.exists_iff_forall_axis]
    simp only [mem_iff_get, Cell.eq_iff_get, Cell.get_coarse, forall_and]
  rw [choice, mem_iff_get]
  apply forall_congr'
  intro axis
  have spans := isEmpty_eq_false_iff_get.mp holds axis
  have ratioPos := Vec.get_pos_of_isPositive positive axis
  rw [(coarsen_spec coarsened axis).1, (coarsen_spec coarsened axis).2]
  have endsAfter : cell.get axis < -(-(box.high.get axis).val / (ratio.get axis).val) ↔
      cell.get axis * (ratio.get axis).val < (box.high.get axis).val := by
    have divided := @Int.ediv_lt_iff_lt_mul (-(box.high.get axis).val) (-cell.get axis) _ ratioPos
    rw [Int.neg_mul] at divided
    omega
  have startsBefore : (box.low.get axis).val / (ratio.get axis).val ≤ cell.get axis ↔
      (box.low.get axis).val < cell.get axis * (ratio.get axis).val + (ratio.get axis).val := by
    rw [← Int.lt_add_one_iff, Int.ediv_lt_iff_lt_mul ratioPos, Int.add_mul, Int.one_mul]
  rw [endsAfter, startsBefore]
  constructor
  · rintro ⟨starts, ends⟩
    refine ⟨max (box.low.get axis).val (cell.get axis * (ratio.get axis).val), by omega, ?_⟩
    refine Int.le_antisymm (Int.lt_add_one_iff.mp ?_) ?_
    · rw [Int.ediv_lt_iff_lt_mul ratioPos, Int.add_mul, Int.one_mul]
      omega
    · rw [Int.le_ediv_iff_mul_le ratioPos]
      exact Int.le_max_right _ _
  · rintro ⟨value, within, quotient⟩
    have below := Int.lt_ediv_add_one_mul_self value ratioPos
    have above := Int.ediv_mul_le value (Int.ne_of_gt ratioPos)
    rw [quotient] at below above
    rw [Int.add_mul, Int.one_mul] at below
    omega

theorem coarsen_holds
    (holds : box.isEmpty = false)
    (coarsened : box.coarsen ratio = .ok coarse) :
    coarse.isEmpty = false := by
  obtain ⟨cell, inBox⟩ := isEmpty_eq_false_iff_exists.mp holds
  exact isEmpty_eq_false_iff_exists.mpr
    ⟨_, (mem_coarsen_iff positive holds coarsened).mpr ⟨cell, inBox, rfl⟩⟩

/-- A refined box holds the cells that lie in a cell of the box. -/
theorem mem_refine_iff
    {cell : Cell}
    (refined : box.refine ratio = .ok fine) :
    cell ∈ fine ↔ cell.coarse ratio ∈ box := by
  simp only [mem_iff_get, Cell.get_coarse]
  apply forall_congr'
  intro axis
  have ratioPos := Vec.get_pos_of_isPositive positive axis
  rw [(refine_spec refined axis).1, (refine_spec refined axis).2, Int.le_ediv_iff_mul_le ratioPos,
    Int.ediv_lt_iff_lt_mul ratioPos]

end

end Box

/-! ## All the way -/

namespace Grid

/-- A cell of one level lies in a cell of a level that is as coarse or
coarser. -/
inductive Encloses (grid : Grid) : Nat → Cell → Nat → Cell → Prop
  | itself {position : Nat} {cell : Cell} : grid.Encloses position cell position cell
  | finer {coarse fine : Nat} {outer inner : Cell} {level : Level} :
      grid.level? (fine + 1) = some level →
        grid.Encloses coarse outer fine (inner.coarse level.ratio) →
          grid.Encloses coarse outer (fine + 1) inner

variable {grid : Grid} {source target coarse fine : Nat} {outer inner : Cell} {level : Level}

private theorem Encloses.le
    (encloses : grid.Encloses coarse outer fine inner) :
    coarse ≤ fine := by
  induction encloses with
  | itself => exact Nat.le_refl _
  | finer _ _ inductionHypothesis => exact Nat.le_succ_of_le inductionHypothesis

theorem encloses_self_iff : grid.Encloses source outer source inner ↔ outer = inner := by
  constructor
  · intro encloses
    cases encloses with
    | itself => rfl
    | finer _ encloses => exact absurd encloses.le (Nat.not_succ_le_self _)
  · rintro rfl
    exact Encloses.itself

theorem encloses_succ_iff
    (levelAt : grid.level? (fine + 1) = some level)
    (ordered : coarse ≤ fine) :
    grid.Encloses coarse outer (fine + 1) inner ↔
      grid.Encloses coarse outer fine (inner.coarse level.ratio) := by
  constructor
  · intro encloses
    cases encloses with
    | itself => exact absurd ordered (Nat.not_succ_le_self _)
    | finer foundAt encloses =>
        rw [levelAt] at foundAt
        cases foundAt
        exact encloses
  · exact Encloses.finer levelAt

theorem ratiosBetween_self : grid.ratiosBetween source source = [] := by
  unfold ratiosBetween
  rw [Nat.sub_self, List.take_zero, List.map_nil]

theorem ratiosBetween_succ
    (levelAt : grid.level? (fine + 1) = some level)
    (ordered : coarse ≤ fine) :
    grid.ratiosBetween coarse (fine + 1) = grid.ratiosBetween coarse fine ++ [level.ratio] := by
  have next : (grid.levels.drop (coarse + 1))[fine - coarse]? = some level := by
    rw [List.getElem?_drop, show coarse + 1 + (fine - coarse) = fine + 1 by omega]
    exact levelAt
  unfold ratiosBetween
  rw [Nat.sub_add_comm ordered, List.take_add_one, next, List.map_append]
  rfl

theorem exists_level_of_lt
    (onGrid : source < grid.levels.length) :
    ∃ level, grid.level? source = some level :=
  ⟨_, List.getElem?_eq_getElem onGrid⟩

theorem mem_refined_iff
    {box fineBox : Box}
    (ordered : source ≤ target)
    (onGrid : target < grid.levels.length)
    (refined : (grid.ratiosBetween source target).foldlM Box.refine box = .ok fineBox) :
    inner ∈ fineBox ↔ ∃ needed ∈ box, grid.Encloses source needed target inner := by
  induction target, ordered using Nat.le_induction generalizing fineBox inner with
  | base =>
      rw [ratiosBetween_self] at refined
      cases refined
      simp only [encloses_self_iff, exists_eq_right]
  | succ between ordered inductionHypothesis =>
      obtain ⟨level, levelAt⟩ := exists_level_of_lt onGrid
      rw [ratiosBetween_succ levelAt ordered, List.foldlM_append] at refined
      obtain ⟨betweenBox, betweenOk, last⟩ := bind_eq_ok_iff.mp refined
      obtain ⟨_, lastOk, same⟩ := bind_eq_ok_iff.mp last
      cases same
      rw [Box.mem_refine_iff level.coherent.ratio_positive lastOk,
        inductionHypothesis (Nat.lt_of_succ_lt onGrid) betweenOk]
      simp only [encloses_succ_iff levelAt ordered]

theorem mem_coarsened_iff
    {box coarseBox : Box}
    (ordered : target ≤ source)
    (onGrid : source < grid.levels.length)
    (holds : box.isEmpty = false)
    (coarsened :
      (grid.ratiosBetween target source).reverse.foldlM Box.coarsen box = .ok coarseBox) :
    outer ∈ coarseBox ↔ ∃ needed ∈ box, grid.Encloses target outer source needed := by
  induction source, ordered using Nat.le_induction generalizing box with
  | base =>
      rw [ratiosBetween_self] at coarsened
      cases coarsened
      simp only [encloses_self_iff, exists_eq_right']
  | succ between ordered inductionHypothesis =>
      obtain ⟨level, levelAt⟩ := exists_level_of_lt onGrid
      rw [ratiosBetween_succ levelAt ordered, List.reverse_append] at coarsened
      obtain ⟨betweenBox, first, rest⟩ := bind_eq_ok_iff.mp coarsened
      have inBetween : ∀ cell : Cell,
          cell ∈ betweenBox ↔ ∃ held ∈ box, held.coarse level.ratio = cell :=
        fun _ => Box.mem_coarsen_iff level.coherent.ratio_positive holds first
      have betweenHolds := Box.coarsen_holds level.coherent.ratio_positive holds first
      rw [inductionHypothesis (Nat.lt_of_succ_lt onGrid) betweenHolds rest]
      simp only [inBetween, encloses_succ_iff levelAt ordered]
      constructor
      · rintro ⟨_, ⟨held, inBox, rfl⟩, encloses⟩
        exact ⟨held, inBox, encloses⟩
      · rintro ⟨held, inBox, encloses⟩
        exact ⟨_, ⟨held, inBox, rfl⟩, encloses⟩

/-- Of two cells on two levels, one lies in the other. -/
def Nested (grid : Grid) (source : Nat) (needed : Cell) (target : Nat) (cell : Cell) : Prop :=
  grid.Encloses source needed target cell ∨ grid.Encloses target cell source needed

theorem nested_self_iff {needed cell : Cell} :
    grid.Nested source needed source cell ↔ needed = cell := by
  unfold Nested
  rw [encloses_self_iff, encloses_self_iff, eq_comm, or_self, eq_comm]

private theorem nested_iff_of_lt
    {needed cell : Cell}
    (above : source < target) :
    grid.Nested source needed target cell ↔ grid.Encloses source needed target cell :=
  or_iff_left fun encloses => absurd encloses.le (Nat.not_le_of_lt above)

theorem nested_iff_of_gt
    {needed cell : Cell}
    (below : target < source) :
    grid.Nested source needed target cell ↔ grid.Encloses target cell source needed :=
  or_iff_right fun encloses => absurd encloses.le (Nat.not_le_of_lt below)

theorem levelAt?_eq_some_iff {steps : Int} :
    grid.levelAt? source steps = some level ↔
      ∃ found : Nat, (found : Int) = source + steps ∧ grid.level? found = some level := by
  unfold levelAt?
  dsimp only
  constructor
  · intro levelAt
    split at levelAt
    · cases levelAt
    · exact ⟨_, Int.toNat_of_nonneg (by omega), levelAt⟩
  · rintro ⟨found, foundEq, levelAt⟩
    rw [← foundEq, if_neg (Int.not_lt.mpr (Int.natCast_nonneg _)), Int.toNat_natCast]
    exact levelAt

theorem lt_length_of_level?
    (levelAt : grid.level? source = some level) :
    source < grid.levels.length :=
  (List.getElem?_eq_some_iff.mp levelAt).1

end Grid

/-- A carried box holds the cells that lie in one of the box, or in which one of
the box lies. -/
theorem exists_box_of_carryBox
    {grid : Grid} {box : Box} {source : Nat} {steps : Int} {own target : Level}
    {carried : Option Box}
    (indexed : grid.Indexed)
    (ownAt : grid.level? source = some own)
    (targetAt : grid.levelAt? source steps = some target)
    (holds : box.isEmpty = false)
    (carriedOk : carryBox grid box source target.index steps = .ok carried) :
    ∃ reached, carried = some reached ∧
      ∀ cell, cell ∈ reached ↔ ∃ needed ∈ box, grid.Nested source needed target.index cell := by
  obtain ⟨position, positionEq, levelAt⟩ := Grid.levelAt?_eq_some_iff.mp targetAt
  rw [indexed position target levelAt] at carriedOk ⊢
  have ownOnGrid := Grid.lt_length_of_level? ownAt
  have targetOnGrid := Grid.lt_length_of_level? levelAt
  unfold carryBox at carriedOk
  split at carriedOk
  · cases carriedOk
    obtain rfl : position = source := by omega
    refine ⟨box, rfl, fun cell => ?_⟩
    simp only [Grid.nested_self_iff, exists_eq_right]
  · split at carriedOk
    · have below : position < source := by omega
      unfold Grid.coarsenBox at carriedOk
      rw [if_neg (by omega)] at carriedOk
      obtain ⟨reached, coarsened, rfl⟩ := map_eq_ok_iff.mp carriedOk
      refine ⟨reached, rfl, fun cell => ?_⟩
      simp only [Grid.nested_iff_of_gt below]
      exact Grid.mem_coarsened_iff (Nat.le_of_lt below) ownOnGrid holds coarsened
    · have above : source < position := by omega
      unfold Grid.refineBox at carriedOk
      rw [if_neg (by omega)] at carriedOk
      obtain ⟨reached, refined, rfl⟩ := map_eq_ok_iff.mp carriedOk
      refine ⟨reached, rfl, fun cell => ?_⟩
      simp only [Grid.nested_iff_of_lt above]
      exact Grid.mem_refined_iff (Nat.le_of_lt above) targetOnGrid refined

end MeshTasks
