import MeshTasks.Proofs.Mesh.Bounds
import MeshTasks.Proofs.Mesh.Carrying

/-!
# Ancestors of cells

The ancestor of a cell on a coarser level is found by one division for each
level on the way. A box that holds cells is always carried down, to just the
ancestors of its cells, and a box is carried up to just the cells with ancestors
in it, as far as the coordinates reach. So the one lies in a box exactly when
the other lies in what that box is carried up to, and what was carried up is
carried down to where it came from.
-/

namespace MeshTasks

/-- Every cell of the coarser level is that of some cell. -/
private theorem Cell.exists_coarse_eq
    {ratio : Vec}
    (positive : ratio.isPositive = true)
    (cell : Cell) :
    ∃ held : Cell, held.coarse ratio = cell := by
  obtain ⟨held, heldEq⟩ := exists_get_eq fun axis => cell.get axis * (ratio.get axis).val
  refine ⟨held, eq_iff_get.mpr fun axis => ?_⟩
  rw [get_coarse, heldEq]
  exact Int.mul_ediv_cancel _ (Int.ne_of_gt (Vec.get_pos_of_isPositive positive axis))

/-! ## Boxes that are always carried down -/

section

variable {coord divisor : Coord} (positive : 0 < divisor.val)

include positive

private theorem Coord.exists_divFloor : ∃ quotient, coord.divFloor divisor = .ok quotient := by
  have lower := coord.lower
  have upper := coord.upper
  unfold divFloor
  rw [if_neg (Int.ne_of_gt positive)]
  apply exists_checked
  · rw [Int.le_ediv_iff_mul_le positive]
    omega
  · rw [← Int.lt_add_one_iff, Int.ediv_lt_iff_lt_mul positive]
    omega

/-- Only the least coordinate cannot be divided and rounded up, since it has no
negative. -/
private theorem Coord.exists_divCeil
    (above : -2147483648 < coord.val) :
    ∃ quotient, coord.divCeil divisor = .ok quotient := by
  have upper := coord.upper
  obtain ⟨negated, negatedOk⟩ : ∃ negated, coord.neg = .ok negated :=
    exists_checked (by omega) (by omega)
  have negatedEq : negated.val = -coord.val := checked_eq_ok_iff.mp negatedOk
  obtain ⟨quotient, quotientOk⟩ := @exists_divFloor negated divisor positive
  have stillAbove : -2147483647 ≤ quotient.val := by
    rw [val_divFloor quotientOk, Int.le_ediv_iff_mul_le positive]
    omega
  obtain ⟨result, resultOk⟩ : ∃ result, quotient.neg = .ok result :=
    exists_checked (by have := quotient.upper; omega) (by omega)
  exact ⟨result, bind_eq_ok_iff.mpr ⟨negated, negatedOk,
    bind_eq_ok_iff.mpr ⟨quotient, quotientOk, resultOk⟩⟩⟩

end

/-- The upper corner of a box that holds cells is above the least coordinate. -/
theorem Box.least_lt_high
    {box : Box}
    (holds : box.isEmpty = false)
    (axis : Axis) :
    -2147483648 < (box.high.get axis).val :=
  Int.lt_of_le_of_lt (box.low.get axis).lower (isEmpty_eq_false_iff_get.mp holds axis)

theorem Box.exists_coarsen
    {box : Box} {ratio : Vec}
    (positive : ratio.isPositive = true)
    (above : ∀ axis, -2147483648 < (box.high.get axis).val) :
    ∃ coarse, box.coarsen ratio = .ok coarse := by
  obtain ⟨low, lowOk⟩ : ∃ low, box.low.divFloor ratio = .ok low :=
    Vec.exists_zipWithM fun axis =>
      Coord.exists_divFloor (Vec.get_pos_of_isPositive positive axis)
  obtain ⟨high, highOk⟩ : ∃ high, box.high.divCeil ratio = .ok high :=
    Vec.exists_zipWithM fun axis =>
      Coord.exists_divCeil (Vec.get_pos_of_isPositive positive axis) (above axis)
  exact ⟨⟨low, high⟩, bind_eq_ok_iff.mpr ⟨low, lowOk, bind_eq_ok_iff.mpr ⟨high, highOk, rfl⟩⟩⟩

namespace Grid

/-- The cell of a coarser level in which a cell of a finer one lies: for each
level above the coarser one, from the finer one down, the coordinates are
divided by its ratio and rounded down. -/
def ancestor (grid : Grid) (coarse fine : Nat) (cell : Cell) : Cell :=
  ((grid.levels.take (fine + 1)).drop (coarse + 1)).foldr
    (fun level held => held.coarse level.ratio) cell

variable {grid : Grid} {source target coarse fine : Nat} {box : Box}

theorem ancestor_self (cell : Cell) : grid.ancestor coarse coarse cell = cell := by
  unfold ancestor
  rw [List.drop_eq_nil_of_le (List.length_take_le _ _)]
  rfl

theorem ancestor_succ
    {level : Level}
    (levelAt : grid.level? (fine + 1) = some level)
    (ordered : coarse ≤ fine)
    (cell : Cell) :
    grid.ancestor coarse (fine + 1) cell = grid.ancestor coarse fine (cell.coarse level.ratio) := by
  have reaches : coarse + 1 ≤ (grid.levels.take (fine + 1)).length := by
    rw [List.length_take]
    have onGrid := lt_length_of_level? levelAt
    omega
  have next : grid.levels[fine + 1]? = some level := levelAt
  unfold ancestor
  rw [List.take_add_one, next, List.drop_append_of_le_length reaches, List.foldr_append]
  rfl

section

variable (ordered : coarse ≤ fine) (onGrid : fine < grid.levels.length)

include ordered onGrid

theorem encloses_iff_ancestor {outer inner : Cell} :
    grid.Encloses coarse outer fine inner ↔ grid.ancestor coarse fine inner = outer := by
  induction fine, ordered using Nat.le_induction generalizing inner with
  | base => rw [encloses_self_iff, ancestor_self, eq_comm]
  | succ between ordered inductionHypothesis =>
      obtain ⟨level, levelAt⟩ := exists_level_of_lt onGrid
      rw [encloses_succ_iff levelAt ordered, ancestor_succ levelAt ordered]
      exact inductionHypothesis (Nat.lt_of_succ_lt onGrid)

private theorem exists_ancestor_eq (cell : Cell) :
    ∃ held, grid.ancestor coarse fine held = cell := by
  induction fine, ordered using Nat.le_induction with
  | base => exact ⟨cell, ancestor_self cell⟩
  | succ between ordered inductionHypothesis =>
      obtain ⟨level, levelAt⟩ := exists_level_of_lt onGrid
      obtain ⟨held, heldEq⟩ := inductionHypothesis (Nat.lt_of_succ_lt onGrid)
      obtain ⟨finer, finerEq⟩ := Cell.exists_coarse_eq level.coherent.ratio_positive held
      refine ⟨finer, ?_⟩
      rw [ancestor_succ levelAt ordered, finerEq, heldEq]

private theorem exists_coarsened
    (holds : box.isEmpty = false) :
    ∃ below, (grid.ratiosBetween coarse fine).reverse.foldlM Box.coarsen box = .ok below := by
  induction fine, ordered using Nat.le_induction generalizing box with
  | base =>
      rw [ratiosBetween_self]
      exact ⟨box, rfl⟩
  | succ between ordered inductionHypothesis =>
      obtain ⟨level, levelAt⟩ := exists_level_of_lt onGrid
      have positive := level.coherent.ratio_positive
      obtain ⟨first, firstOk⟩ := Box.exists_coarsen positive (Box.least_lt_high holds)
      obtain ⟨below, restOk⟩ := inductionHypothesis (Nat.lt_of_succ_lt onGrid)
        (Box.coarsen_holds positive holds firstOk)
      rw [ratiosBetween_succ levelAt ordered, List.reverse_append]
      exact ⟨below, bind_eq_ok_iff.mpr ⟨first, firstOk, restOk⟩⟩

private theorem coarsenBox_eq_ok_some_iff {below : Box} :
    grid.coarsenBox box fine coarse = .ok (some below) ↔
      (grid.ratiosBetween coarse fine).reverse.foldlM Box.coarsen box = .ok below := by
  unfold coarsenBox
  rw [if_neg (by omega), map_eq_ok_iff]
  simp only [Option.some.injEq, exists_eq_right]

private theorem refineBox_eq_ok_some_iff {above : Box} :
    grid.refineBox box coarse fine = .ok (some above) ↔
      (grid.ratiosBetween coarse fine).foldlM Box.refine box = .ok above := by
  unfold refineBox
  rw [if_neg (by omega), map_eq_ok_iff]
  simp only [Option.some.injEq, exists_eq_right]

private theorem exists_coarsenBox
    (holds : box.isEmpty = false) :
    ∃ below, grid.coarsenBox box fine coarse = .ok (some below) := by
  obtain ⟨below, coarsened⟩ := exists_coarsened ordered onGrid holds
  exact ⟨below, (coarsenBox_eq_ok_some_iff ordered onGrid).mpr coarsened⟩

theorem mem_coarsenBox_iff
    {below : Box}
    (holds : box.isEmpty = false)
    (coarsened : grid.coarsenBox box fine coarse = .ok (some below))
    (cell : Cell) :
    cell ∈ below ↔ ∃ held ∈ box, grid.ancestor coarse fine held = cell := by
  rw [coarsenBox_eq_ok_some_iff ordered onGrid] at coarsened
  simp only [mem_coarsened_iff ordered onGrid holds coarsened, encloses_iff_ancestor ordered onGrid]

theorem mem_refineBox_iff
    {above : Box}
    (refined : grid.refineBox box coarse fine = .ok (some above))
    (cell : Cell) :
    cell ∈ above ↔ grid.ancestor coarse fine cell ∈ box := by
  rw [refineBox_eq_ok_some_iff ordered onGrid] at refined
  simp only [mem_refined_iff ordered onGrid refined, encloses_iff_ancestor ordered onGrid,
    exists_eq_right']

theorem contains_coarsenBox_iff
    {below wide above : Box}
    (holds : box.isEmpty = false)
    (coarsened : grid.coarsenBox box fine coarse = .ok (some below))
    (refined : grid.refineBox wide coarse fine = .ok (some above)) :
    wide.contains below = true ↔ above.contains box = true := by
  rw [Box.contains_iff_forall_mem, Box.contains_iff_forall_mem]
  simp only [mem_coarsenBox_iff ordered onGrid holds coarsened,
    mem_refineBox_iff ordered onGrid refined]
  exact ⟨fun inside cell inBox => inside _ ⟨cell, inBox, rfl⟩,
    fun inside _ ⟨cell, inBox, same⟩ => same ▸ inside cell inBox⟩

/-- A box carried up and down again has the same cells, since each of them is an
ancestor. -/
theorem coarsenBox_of_refineBox
    {above : Box}
    (holds : box.isEmpty = false)
    (refined : grid.refineBox box coarse fine = .ok (some above)) :
    grid.coarsenBox above fine coarse = .ok (some box) := by
  have inAbove := mem_refineBox_iff ordered onGrid refined
  have descends : ∀ outer ∈ box, ∃ cell ∈ above, grid.ancestor coarse fine cell = outer := by
    intro outer inBox
    obtain ⟨cell, cellEq⟩ := exists_ancestor_eq ordered onGrid outer
    exact ⟨cell, (inAbove cell).mpr (cellEq ▸ inBox), cellEq⟩
  have aboveHolds : above.isEmpty = false := by
    obtain ⟨outer, inBox⟩ := Box.isEmpty_eq_false_iff_exists.mp holds
    obtain ⟨cell, cellInAbove, _⟩ := descends outer inBox
    exact Box.isEmpty_eq_false_iff_exists.mpr ⟨cell, cellInAbove⟩
  obtain ⟨below, coarsened⟩ := exists_coarsenBox ordered onGrid aboveHolds
  have same : box = below := by
    refine Box.eq_of_mem_iff holds fun outer => ?_
    rw [mem_coarsenBox_iff ordered onGrid aboveHolds coarsened]
    refine ⟨descends outer, ?_⟩
    rintro ⟨cell, cellInAbove, rfl⟩
    exact (inAbove cell).mp cellInAbove
  rw [coarsened, same]

end

private theorem level?_eq_none_iff : grid.level? source = none ↔ grid.levels.length ≤ source :=
  List.getElem?_eq_none_iff

private theorem coarsenBox_eq_ok_none_iff :
    grid.coarsenBox box source target = .ok none ↔
      grid.level? source = none ∨ grid.level? target = none ∨ source < target := by
  simp only [level?_eq_none_iff]
  unfold coarsenBox
  split
  · exact iff_of_true rfl (by omega)
  · refine iff_of_false (fun carried => ?_) (by omega)
    obtain ⟨_, _, impossible⟩ := map_eq_ok_iff.mp carried
    cases impossible

private theorem refineBox_eq_ok_none_iff :
    grid.refineBox box source target = .ok none ↔
      grid.level? source = none ∨ grid.level? target = none ∨ target < source := by
  simp only [level?_eq_none_iff]
  unfold refineBox
  split
  · exact iff_of_true rfl (by omega)
  · refine iff_of_false (fun carried => ?_) (by omega)
    obtain ⟨_, _, impossible⟩ := map_eq_ok_iff.mp carried
    cases impossible

/-- Carrying down to one level and up from it go together: both are known by the
ancestors of cells, and the one says of containment what the other does. -/
structure Adjoint (grid : Grid) (coarse fine : Nat) : Prop where
  coarsens : ∀ box : Box, box.isEmpty = false →
    ∃ below, grid.coarsenBox box fine coarse = .ok (some below)
  mem_coarsened : ∀ box below : Box, box.isEmpty = false →
    grid.coarsenBox box fine coarse = .ok (some below) →
      ∀ cell, cell ∈ below ↔ ∃ held ∈ box, grid.ancestor coarse fine held = cell
  mem_refined : ∀ box above : Box, grid.refineBox box coarse fine = .ok (some above) →
    ∀ cell, cell ∈ above ↔ grid.ancestor coarse fine cell ∈ box
  contains_iff : ∀ box below wide above : Box, box.isEmpty = false →
    grid.coarsenBox box fine coarse = .ok (some below) →
      grid.refineBox wide coarse fine = .ok (some above) →
        (wide.contains below = true ↔ above.contains box = true)
  coarsen_refined : ∀ wide above : Box, wide.isEmpty = false →
    grid.refineBox wide coarse fine = .ok (some above) →
      grid.coarsenBox above fine coarse = .ok (some wide)

/-- Between any two levels boxes are carried down and up by the ancestors of
cells. There is no result just if a level is missing or the other level is on
the wrong side. -/
theorem carried_adjoint (grid : Grid) :
    (∀ coarse fine, coarse ≤ fine → fine < grid.levels.length → grid.Adjoint coarse fine) ∧
      ∀ (box : Box) (source target : Nat),
        (grid.coarsenBox box source target = .ok none ↔
          grid.level? source = none ∨ grid.level? target = none ∨ source < target) ∧
        (grid.refineBox box source target = .ok none ↔
          grid.level? source = none ∨ grid.level? target = none ∨ target < source) := by
  refine ⟨fun coarse fine ordered onGrid => ?_, fun box source target =>
    ⟨coarsenBox_eq_ok_none_iff, refineBox_eq_ok_none_iff⟩⟩
  exact {
    coarsens := fun _ holds => exists_coarsenBox ordered onGrid holds
    mem_coarsened := fun _ _ holds coarsened => mem_coarsenBox_iff ordered onGrid holds coarsened
    mem_refined := fun _ _ refined => mem_refineBox_iff ordered onGrid refined
    contains_iff := fun _ _ _ _ holds coarsened refined =>
      contains_coarsenBox_iff ordered onGrid holds coarsened refined
    coarsen_refined := fun _ _ holds refined =>
      coarsenBox_of_refineBox ordered onGrid holds refined }

end Grid

/-! ## Three levels -/

namespace Chain

/-- A level without regions. -/
def bare (index : Nat) (ratio : Coord) (positive : (Vec.splat ratio).isPositive = true) :
    Level where
  index := index
  ratio := .splat ratio
  periodic := .none
  regions := []
  domain := .origin
  widest := .zero
  coherent := by
    refine ⟨positive, ?_, ?_, ?_, ?_, List.Pairwise.nil⟩
    all_goals exact fun _ member => absurd member List.not_mem_nil

/-- Two cells make up a coarse one, and three of the next level one of them. -/
def grid : Grid :=
  ⟨[bare 0 .one rfl, bare 1 (.clamp 2) rfl, bare 2 (.clamp 3) rfl], List.nodup_nil⟩

def cube (low high : Int) : Box :=
  ⟨.splat (.clamp low), .splat (.clamp high)⟩

end Chain

theorem carried_adjoint_chain :
    Chain.grid.coarsenBox (Chain.cube (-7) 5) 2 0 = .ok (some (Chain.cube (-2) 1)) ∧
      (∃ held ∈ Chain.cube (-7) 5, Chain.grid.ancestor 0 2 held = ⟨-2, -2, -2⟩) ∧
        Chain.grid.refineBox (Chain.cube (-2) 1) 0 2 = .ok (some (Chain.cube (-12) 6)) ∧
          (Chain.cube (-12) 6).contains (Chain.cube (-7) 5) = true ∧
            Chain.grid.coarsenBox (Chain.cube (-12) 6) 2 0 = .ok (some (Chain.cube (-2) 1)) ∧
              Chain.grid.coarsenBox (Chain.cube (-7) 5) 0 2 = .ok none := by
  obtain ⟨adjoint, noResult⟩ := Chain.grid.carried_adjoint
  have between := adjoint 0 2 (by decide) (by decide)
  have coarsened :
      Chain.grid.coarsenBox (Chain.cube (-7) 5) 2 0 = .ok (some (Chain.cube (-2) 1)) := rfl
  have refined :
      Chain.grid.refineBox (Chain.cube (-2) 1) 0 2 = .ok (some (Chain.cube (-12) 6)) := rfl
  refine ⟨coarsened, ?_, refined, ?_, ?_, ?_⟩
  · exact (between.mem_coarsened _ _ (by decide) coarsened _).mp (by decide)
  · exact (between.contains_iff _ _ _ _ (by decide) coarsened refined).mp (by decide)
  · exact between.coarsen_refined _ _ (by decide) refined
  · exact (noResult _ 0 2).1.mpr (Or.inr (Or.inr (by decide)))

end MeshTasks
