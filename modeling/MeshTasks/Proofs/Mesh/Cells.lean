import MeshTasks.Proofs.Mesh.Overlaps
import MeshTasks.Space.Cell

/-!
# Boxes as sets of cells

A cell belongs to a box if it does so on every axis. The part of a box that
another box holds at an offset is therefore known by its bounds on each axis,
and its cells are the cells of the one box that, moved back by the offset,
belong to the other.
-/

namespace MeshTasks

def Cell.get (cell : Cell) : Axis → Int
  | .x => cell.x
  | .y => cell.y
  | .z => cell.z

theorem Cell.get_unshift (cell : Cell) (offset : Vec) (axis : Axis) :
    (cell.unshift offset).get axis = cell.get axis - (offset.get axis).val := by
  cases axis <;> rfl

theorem Cell.get_shift (cell : Cell) (offset : Vec) (axis : Axis) :
    (cell.shift offset).get axis = cell.get axis + (offset.get axis).val := by
  cases axis <;> rfl

theorem Cell.shift_zero (cell : Cell) : cell.shift .zero = cell :=
  Cell.ext (Int.add_zero _) (Int.add_zero _) (Int.add_zero _)

theorem Cell.exists_get_eq (value : Axis → Int) :
    ∃ cell : Cell, ∀ axis, cell.get axis = value axis :=
  ⟨⟨value .x, value .y, value .z⟩, Axis.forall_iff.mpr ⟨rfl, rfl, rfl⟩⟩

theorem Vec.exists_get_eq
    (value : Axis → Int)
    (bounds : ∀ axis, -2147483648 ≤ value axis ∧ value axis ≤ 2147483647) :
    ∃ vec : Vec, ∀ axis, (vec.get axis).val = value axis := by
  let coord (axis : Axis) : Coord := ⟨value axis, (bounds axis).1, (bounds axis).2⟩
  refine ⟨⟨coord .x, coord .y, coord .z⟩, fun axis => ?_⟩
  cases axis <;> rfl

namespace Box

theorem mem_iff_get {cell : Cell} {box : Box} :
    cell ∈ box ↔
      ∀ axis, (box.low.get axis).val ≤ cell.get axis ∧ cell.get axis < (box.high.get axis).val := by
  rw [Axis.forall_iff]
  exact Iff.rfl

theorem isEmpty_eq_false_iff_exists {box : Box} : box.isEmpty = false ↔ ∃ cell, cell ∈ box := by
  rw [Bool.eq_false_iff, ne_eq, isEmpty_iff, not_forall]
  simp only [Decidable.not_not]

theorem overlaps_iff_exists_mem {left right : Box} :
    left.overlaps right = true ↔ ∃ cell, cell ∈ left ∧ cell ∈ right := by
  constructor
  · intro overlaps
    obtain ⟨leftHolds, rightHolds, shared⟩ := overlaps_eq_true_iff.mp overlaps
    obtain ⟨cell, cellEq⟩ := Cell.exists_get_eq fun axis =>
      max (left.low.get axis).val (right.low.get axis).val
    refine ⟨cell, mem_iff_get.mpr fun axis => ?_, mem_iff_get.mpr fun axis => ?_⟩
    all_goals
      have leftHere := isEmpty_eq_false_iff_get.mp leftHolds axis
      have rightHere := isEmpty_eq_false_iff_get.mp rightHolds axis
      have sharedHere := shared axis
      rw [cellEq]
      omega
  · rintro ⟨cell, inLeft, inRight⟩
    refine overlaps_eq_true_iff.mpr ⟨isEmpty_eq_false_iff_exists.mpr ⟨cell, inLeft⟩,
      isEmpty_eq_false_iff_exists.mpr ⟨cell, inRight⟩, fun axis => ?_⟩
    have leftHere := mem_iff_get.mp inLeft axis
    have rightHere := mem_iff_get.mp inRight axis
    omega

/-- A box that holds cells lies in another if its corners do. -/
theorem forall_mem_iff_get
    {outer inner : Box}
    (holds : inner.isEmpty = false) :
    (∀ cell ∈ inner, cell ∈ outer) ↔
      ∀ axis, (outer.low.get axis).val ≤ (inner.low.get axis).val ∧
        (inner.high.get axis).val ≤ (outer.high.get axis).val := by
  have spans := isEmpty_eq_false_iff_get.mp holds
  simp only [mem_iff_get]
  constructor
  · intro inside axis
    obtain ⟨lowest, lowestEq⟩ := Cell.exists_get_eq fun axis => (inner.low.get axis).val
    obtain ⟨highest, highestEq⟩ := Cell.exists_get_eq fun axis => (inner.high.get axis).val - 1
    have atLow := inside lowest fun axis => by
      have spansHere := spans axis
      rw [lowestEq]
      omega
    have atHigh := inside highest fun axis => by
      have spansHere := spans axis
      rw [highestEq]
      omega
    have atLowHere := atLow axis
    have atHighHere := atHigh axis
    rw [lowestEq] at atLowHere
    rw [highestEq] at atHighHere
    omega
  · intro corners cell inInner axis
    have cornersHere := corners axis
    have inInnerHere := inInner axis
    omega

theorem contains_iff_forall_mem {outer inner : Box} :
    outer.contains inner = true ↔ ∀ cell ∈ inner, cell ∈ outer := by
  rw [contains_iff_corners]
  cases empty : inner.isEmpty with
  | true => exact ⟨fun _ cell inInner => absurd inInner (isEmpty_iff.mp empty cell),
      fun _ => Or.inl rfl⟩
  | false =>
      rw [or_iff_right Bool.false_ne_true, forall_mem_iff_get empty, forall_and, Axis.forall_iff,
        Axis.forall_iff]
      exact Iff.rfl

/-- A box that holds cells is known by them. -/
theorem eq_of_mem_iff
    {left right : Box}
    (holds : left.isEmpty = false)
    (same : ∀ cell, cell ∈ left ↔ cell ∈ right) :
    left = right := by
  have rightHolds : right.isEmpty = false := by
    obtain ⟨cell, inLeft⟩ := isEmpty_eq_false_iff_exists.mp holds
    exact isEmpty_eq_false_iff_exists.mpr ⟨cell, (same cell).mp inLeft⟩
  have within := (forall_mem_iff_get holds).mp fun cell => (same cell).mp
  have around := (forall_mem_iff_get rightHolds).mp fun cell => (same cell).mpr
  apply Box.ext
  · exact Vec.eq_of_get_eq fun axis => Int.le_antisymm (around axis).1 (within axis).1
  · exact Vec.eq_of_get_eq fun axis => Int.le_antisymm (within axis).2 (around axis).2

/-- The part of a box that is held by another box, seen at an offset. -/
structure IsPart (part needed : Box) (offset : Vec) (held : Box) : Prop where
  low_eq : ∀ axis, (part.low.get axis).val =
    max ((needed.low.get axis).val - (offset.get axis).val) (held.low.get axis).val
  high_eq : ∀ axis, (part.high.get axis).val =
    min ((needed.high.get axis).val - (offset.get axis).val) (held.high.get axis).val
  not_empty : part.isEmpty = false

variable {part needed held : Box} {offset : Vec}

theorem IsPart.unique
    {other : Box}
    (isPart : part.IsPart needed offset held)
    (otherIsPart : other.IsPart needed offset held) :
    part = other := by
  apply Box.ext
  · exact Vec.eq_of_get_eq fun axis => by rw [isPart.low_eq, otherIsPart.low_eq]
  · exact Vec.eq_of_get_eq fun axis => by rw [isPart.high_eq, otherIsPart.high_eq]

theorem IsPart.shares
    (isPart : part.IsPart needed offset held)
    (axis : Axis) :
    (needed.low.get axis).val - (offset.get axis).val < (held.high.get axis).val ∧
      (held.low.get axis).val < (needed.high.get axis).val - (offset.get axis).val := by
  have spans := isEmpty_eq_false_iff_get.mp isPart.not_empty axis
  rw [isPart.low_eq, isPart.high_eq] at spans
  omega

theorem IsPart.mem_iff
    (isPart : part.IsPart needed offset held)
    {cell : Cell} :
    cell.unshift offset ∈ part ↔ cell ∈ needed ∧ cell.unshift offset ∈ held := by
  simp only [mem_iff_get, Cell.get_unshift, isPart.low_eq, isPart.high_eq, ← forall_and]
  apply forall_congr'
  intro axis
  omega

theorem exists_isPart
    {cell : Cell}
    (inNeeded : cell ∈ needed)
    (inHeld : cell.unshift offset ∈ held) :
    ∃ part : Box, part.IsPart needed offset held := by
  simp only [mem_iff_get, Cell.get_unshift] at inNeeded inHeld
  let lowest (axis : Axis) : Int :=
    max ((needed.low.get axis).val - (offset.get axis).val) (held.low.get axis).val
  let highest (axis : Axis) : Int :=
    min ((needed.high.get axis).val - (offset.get axis).val) (held.high.get axis).val
  have fits : ∀ axis,
      -2147483648 ≤ lowest axis ∧ lowest axis < highest axis ∧ highest axis ≤ 2147483647 := by
    intro axis
    have neededHere := inNeeded axis
    have heldHere := inHeld axis
    have lower := (held.low.get axis).lower
    have upper := (held.high.get axis).upper
    dsimp only [lowest, highest]
    omega
  obtain ⟨low, lowEq⟩ := Vec.exists_get_eq lowest fun axis => by
    have here := fits axis
    omega
  obtain ⟨high, highEq⟩ := Vec.exists_get_eq highest fun axis => by
    have here := fits axis
    omega
  refine ⟨⟨low, high⟩, lowEq, highEq, isEmpty_eq_false_iff_get.mpr fun axis => ?_⟩
  rw [lowEq, highEq]
  exact (fits axis).2.1

/-- Moving a box back by an offset and cutting it gives the part held at that
offset. -/
theorem intersect?_eq_some_iff
    {moved : Box}
    (movedEq : ∀ axis,
      (moved.low.get axis).val = (needed.low.get axis).val - (offset.get axis).val ∧
        (moved.high.get axis).val = (needed.high.get axis).val - (offset.get axis).val) :
    moved.intersect? held = some part ↔ part.IsPart needed offset held := by
  have lowEq : ∀ axis, ((max moved.low held.low).get axis).val =
      max ((needed.low.get axis).val - (offset.get axis).val) (held.low.get axis).val := by
    intro axis
    rw [Vec.get_max, (movedEq axis).1]
  have highEq : ∀ axis, ((min moved.high held.high).get axis).val =
      min ((needed.high.get axis).val - (offset.get axis).val) (held.high.get axis).val := by
    intro axis
    rw [Vec.get_min, (movedEq axis).2]
  unfold intersect?
  dsimp only
  constructor
  · intro shared
    split at shared
    · cases shared
    · rename_i holds
      cases shared
      exact ⟨lowEq, highEq, Bool.eq_false_iff.mpr holds⟩
  · intro isPart
    have same : (⟨max moved.low held.low, min moved.high held.high⟩ : Box) = part := by
      apply Box.ext
      · exact Vec.eq_of_get_eq fun axis => (lowEq axis).trans (isPart.low_eq axis).symm
      · exact Vec.eq_of_get_eq fun axis => (highEq axis).trans (isPart.high_eq axis).symm
    rw [same, isPart.not_empty]
    rfl

/-- A box that reaches beyond another on no axis is a part of it as a whole. -/
theorem isPart_self
    (covers : ∀ axis, (needed.low.get axis).val ≤ (held.low.get axis).val ∧
      (held.high.get axis).val ≤ (needed.high.get axis).val)
    (holds : held.isEmpty = false) :
    held.IsPart needed .zero held := by
  refine ⟨fun axis => ?_, fun axis => ?_, holds⟩
  · have here := covers axis
    rw [Vec.get_zero]
    omega
  · have here := covers axis
    rw [Vec.get_zero]
    omega

end Box

end MeshTasks
