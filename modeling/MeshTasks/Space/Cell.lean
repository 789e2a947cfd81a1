import MeshTasks.Space.Box

/-!
# Cells

A cell is a position of the integer lattice. A box is the set of the cells
between its corners; the operations on boxes are to be read through this
membership.
-/

namespace MeshTasks

@[ext]
structure Cell where
  x : Int
  y : Int
  z : Int
deriving DecidableEq

namespace Cell

/-- The cell moved by an offset. -/
def shift (cell : Cell) (offset : Vec) : Cell :=
  ⟨cell.x + offset.x.val, cell.y + offset.y.val, cell.z + offset.z.val⟩

/-- The cell moved back by an offset. -/
def unshift (cell : Cell) (offset : Vec) : Cell :=
  ⟨cell.x - offset.x.val, cell.y - offset.y.val, cell.z - offset.z.val⟩

/-- The coarse cell that holds a cell, for a ratio that is positive on every
axis. -/
def coarse (cell : Cell) (ratio : Vec) : Cell :=
  ⟨cell.x / ratio.x.val, cell.y / ratio.y.val, cell.z / ratio.z.val⟩

end Cell

/-- A cell belongs to a box when it is at or above the lower corner and below
the upper corner on every axis. -/
instance : Membership Cell Box :=
  ⟨fun box cell =>
    (box.low.x.val ≤ cell.x ∧ cell.x < box.high.x.val) ∧
      (box.low.y.val ≤ cell.y ∧ cell.y < box.high.y.val) ∧
        (box.low.z.val ≤ cell.z ∧ cell.z < box.high.z.val)⟩

namespace Box

theorem mem_def {cell : Cell} {box : Box} :
    cell ∈ box ↔
      (box.low.x.val ≤ cell.x ∧ cell.x < box.high.x.val) ∧
        (box.low.y.val ≤ cell.y ∧ cell.y < box.high.y.val) ∧
          (box.low.z.val ≤ cell.z ∧ cell.z < box.high.z.val) :=
  Iff.rfl

instance (cell : Cell) (box : Box) : Decidable (cell ∈ box) :=
  inferInstanceAs (Decidable (_ ∧ _ ∧ _))

/-- A box is empty exactly when no cell belongs to it. -/
theorem isEmpty_iff {box : Box} : box.isEmpty = true ↔ ∀ cell : Cell, cell ∉ box := by
  simp only [isEmpty, Bool.or_eq_true, decide_eq_true_eq, Coord.le_iff, mem_def]
  constructor
  · intro inverted cell member
    omega
  · intro noCell
    have corner := noCell ⟨box.low.x.val, box.low.y.val, box.low.z.val⟩
    simp only [Int.le_refl, true_and] at corner
    omega

end Box

end MeshTasks
