import MeshTasks.Space.Box
import MeshTasks.Id

/-!
# Regions

A region is a box of cells on one level. Regions are what processes own and what
work is bound to.
-/

namespace MeshTasks

structure Region where
  id : RegionId
  level : Nat
  box : Box
deriving DecidableEq

namespace Region

/-- The order in which a level keeps its regions: by the lower `x` corner, then
by number. -/
def precedes (left right : Region) : Bool :=
  decide (left.box.low.x < right.box.low.x) ||
    (decide (left.box.low.x = right.box.low.x) && decide (rank left.id ≤ rank right.id))

theorem precedes_total (left right : Region) :
    (left.precedes right || right.precedes left) = true := by
  simp only [precedes, Bool.or_eq_true, Bool.and_eq_true, decide_eq_true_eq, Coord.lt_iff,
    Coord.ext_iff]
  omega

theorem precedes_trans {first second third : Region} (firstSecond : first.precedes second = true)
    (secondThird : second.precedes third = true) : first.precedes third = true := by
  simp only [precedes, Bool.or_eq_true, Bool.and_eq_true, decide_eq_true_eq, Coord.lt_iff,
    Coord.ext_iff] at firstSecond secondThird ⊢
  omega

/-- Merging sorts regions into the order in which a level keeps them. -/
theorem pairwise_mergeSort (regions : List Region) :
    (regions.mergeSort precedes).Pairwise (fun left right => left.precedes right = true) :=
  @List.pairwise_mergeSort Region precedes (fun _ _ _ => precedes_trans) precedes_total regions

end Region

end MeshTasks
