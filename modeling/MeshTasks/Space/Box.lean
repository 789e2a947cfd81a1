import MeshTasks.Space.Vec

/-!
# Boxes of cells

A box is given by its lower corner, which belongs to it, and its upper corner,
which does not. A box whose upper corner is not above its lower corner on some
axis is empty, whatever its corners are. An operation that may fault works on
the lower corner before the upper corner.
-/

namespace MeshTasks

@[ext]
structure Box where
  low : Vec
  high : Vec
deriving DecidableEq

namespace Box

/-- The empty box at the origin. -/
def origin : Box := ⟨.zero, .zero⟩

instance : Inhabited Box := ⟨origin⟩

/-- Whether the box holds no cell. -/
def isEmpty (box : Box) : Bool :=
  decide (box.high.x ≤ box.low.x) || decide (box.high.y ≤ box.low.y) ||
    decide (box.high.z ≤ box.low.z)

/-- The number of cells along each axis, zero where the corners are inverted. -/
def extent (box : Box) : Except Fault Vec := do
  let difference ← box.high.sub box.low
  return max difference .zero

/-- A product that must fit in sixty-four bits with a sign. -/
def cellProduct (left right : Int) : Except Fault Int :=
  if -9223372036854775808 ≤ left * right ∧ left * right ≤ 9223372036854775807 then
    .ok (left * right)
  else
    .error .multiplyOverflow

/-- The number of cells. -/
def volume (box : Box) : Except Fault Int :=
  if box.isEmpty then
    .ok 0
  else do
    let difference ← box.high.sub box.low
    let area ← cellProduct difference.x.val difference.y.val
    cellProduct area difference.z.val

/-- The cells that two boxes share, if there are any. -/
def intersect? (left right : Box) : Option Box :=
  let shared : Box := ⟨max left.low right.low, min left.high right.high⟩
  if shared.isEmpty then none else some shared

/-- Whether two boxes share a cell. -/
def overlaps (left right : Box) : Bool :=
  (left.intersect? right).isSome

/-- Whether every cell of the other box belongs to this one. -/
def contains (outer inner : Box) : Bool :=
  inner.isEmpty ||
    (decide (min outer.low inner.low = outer.low) &&
      decide (max outer.high inner.high = outer.high))

/-- Moves every face outwards by a width. -/
def dilate (box : Box) (width : Coord) : Except Fault Box := do
  let low ← box.low.sub (.splat width)
  let high ← box.high.add (.splat width)
  return ⟨low, high⟩

/-- Moves the two faces across one axis outwards by a width. -/
def dilateAxis (box : Box) (axis : Axis) (width : Coord) : Except Fault Box := do
  let low ← (box.low.get axis).sub width
  let high ← (box.high.get axis).add width
  return ⟨box.low.set axis low, box.high.set axis high⟩

/-- Moves the box by an offset. -/
def translate (box : Box) (offset : Vec) : Except Fault Box := do
  let low ← box.low.add offset
  let high ← box.high.add offset
  return ⟨low, high⟩

/-- The box of the coarse cells that hold some fine cell of the box. -/
def coarsen (box : Box) (ratio : Vec) : Except Fault Box := do
  let low ← box.low.divFloor ratio
  let high ← box.high.divCeil ratio
  return ⟨low, high⟩

/-- The box of the fine cells that lie in some coarse cell of the box. -/
def refine (box : Box) (ratio : Vec) : Except Fault Box := do
  let low ← box.low.mul ratio
  let high ← box.high.mul ratio
  return ⟨low, high⟩

/-- The least box around two boxes. An empty box adds nothing to the other. -/
def hull (left right : Box) : Box :=
  if left.isEmpty then
    right
  else if right.isEmpty then
    left
  else
    ⟨min left.low right.low, max left.high right.high⟩

/-- The corners, with dots between them. -/
def render (box : Box) : String :=
  box.low.render ++ ".." ++ box.high.render

theorem isEmpty_eq_true_iff {box : Box} :
    box.isEmpty = true ↔
      (box.high.x.val ≤ box.low.x.val ∨ box.high.y.val ≤ box.low.y.val) ∨
        box.high.z.val ≤ box.low.z.val := by
  simp only [isEmpty, Bool.or_eq_true, decide_eq_true_eq, Coord.le_iff]

theorem isEmpty_eq_false_iff {box : Box} :
    box.isEmpty = false ↔
      (box.low.x.val < box.high.x.val ∧ box.low.y.val < box.high.y.val) ∧
        box.low.z.val < box.high.z.val := by
  rw [Bool.eq_false_iff, ne_eq, isEmpty_eq_true_iff]
  omega

/-- What the extent of a box is, if it can be measured. -/
theorem extent_spec {box : Box} {extent : Vec} (measured : box.extent = .ok extent) :
    extent.x.val = max (box.high.x.val - box.low.x.val) 0 ∧
      extent.y.val = max (box.high.y.val - box.low.y.val) 0 ∧
        extent.z.val = max (box.high.z.val - box.low.z.val) 0 := by
  unfold Box.extent at measured
  cases subtracted : box.high.sub box.low with
  | error fault =>
      rw [subtracted] at measured
      cases measured
  | ok difference =>
      rw [subtracted] at measured
      have same : extent = max difference .zero := by
        cases measured
        rfl
      have ⟨alongX, alongY, alongZ⟩ := Vec.sub_eq_ok_iff.mp subtracted
      have zeroes : Vec.zero = ⟨Coord.zero, Coord.zero, Coord.zero⟩ := rfl
      have origin : Coord.zero.val = 0 := rfl
      rw [same]
      simp only [Vec.x_max, Vec.y_max, Vec.z_max, Coord.val_max, zeroes, origin]
      omega

/-- A box contains another exactly when that one is empty or its corners lie
between the corners of the first. -/
theorem contains_iff_corners {outer inner : Box} :
    outer.contains inner = true ↔
      inner.isEmpty = true ∨
        ((outer.low.x.val ≤ inner.low.x.val ∧ outer.low.y.val ≤ inner.low.y.val ∧
            outer.low.z.val ≤ inner.low.z.val) ∧
          inner.high.x.val ≤ outer.high.x.val ∧ inner.high.y.val ≤ outer.high.y.val ∧
            inner.high.z.val ≤ outer.high.z.val) := by
  simp only [contains, Bool.or_eq_true, Bool.and_eq_true, decide_eq_true_eq, Vec.min_eq_left_iff,
    Vec.max_eq_left_iff]

theorem contains_hull_right (left right : Box) : (left.hull right).contains right = true := by
  rw [contains_iff_corners]
  unfold hull
  split
  · simp only [Int.le_refl, and_self, or_true]
  · split
    · rename_i rightEmpty
      exact Or.inl rightEmpty
    · refine Or.inr ⟨⟨?_, ?_, ?_⟩, ?_, ?_, ?_⟩ <;>
        simp only [Vec.x_min, Vec.y_min, Vec.z_min, Vec.x_max, Vec.y_max, Vec.z_max,
          Coord.val_min, Coord.val_max] <;> omega

theorem contains_hull_of_contains {left right inner : Box} (inside : left.contains inner = true) :
    (left.hull right).contains inner = true := by
  rw [contains_iff_corners] at inside ⊢
  rcases inside with innerEmpty | corners
  · exact Or.inl innerEmpty
  · unfold hull
    split
    · rename_i leftEmpty
      rw [isEmpty_eq_true_iff] at leftEmpty
      rw [isEmpty_eq_true_iff]
      omega
    · split
      · exact Or.inr corners
      · refine Or.inr ⟨⟨?_, ?_, ?_⟩, ?_, ?_, ?_⟩ <;>
          simp only [Vec.x_min, Vec.y_min, Vec.z_min, Vec.x_max, Vec.y_max, Vec.z_max,
            Coord.val_min, Coord.val_max] <;> omega

end Box

end MeshTasks
