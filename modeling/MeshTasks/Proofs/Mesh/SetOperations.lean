import MeshTasks.Proofs.Mesh.Hulls

/-!
# Operations on boxes and on sets of cells

The operations on boxes work on corners, and a box without cells can have many
corners. Read as sets of cells, boxes are intersected, compared and enclosed as
sets are: what the corners of a box without cells are makes no difference to any
of this.
-/

namespace MeshTasks

theorem Cell.unshift_zero (cell : Cell) : cell.unshift .zero = cell :=
  Cell.ext (Int.sub_zero _) (Int.sub_zero _) (Int.sub_zero _)

namespace Box

variable {left right shared : Box}

/-- The intersection of two boxes is the part of either that the other holds
where it stands. -/
theorem intersect?_eq_some_iff_isPart :
    left.intersect? right = some shared ↔ shared.IsPart left .zero right := by
  refine intersect?_eq_some_iff fun axis => ?_
  rw [Vec.get_zero, Int.sub_zero, Int.sub_zero]
  exact ⟨rfl, rfl⟩

private theorem mem_iff_of_intersect?
    (found : left.intersect? right = some shared)
    (cell : Cell) :
    cell ∈ shared ↔ cell ∈ left ∧ cell ∈ right := by
  have isPart := intersect?_eq_some_iff_isPart.mp found
  rw [← cell.unshift_zero, isPart.mem_iff, cell.unshift_zero]

/-- The intersection is the one box that holds cells and holds just those that
both boxes hold. -/
theorem intersect?_eq_some_iff_mem :
    left.intersect? right = some shared ↔
      shared.isEmpty = false ∧ ∀ cell, cell ∈ shared ↔ cell ∈ left ∧ cell ∈ right := by
  constructor
  · intro found
    exact ⟨(intersect?_eq_some_iff_isPart.mp found).not_empty, mem_iff_of_intersect? found⟩
  · rintro ⟨holds, same⟩
    obtain ⟨cell, inShared⟩ := isEmpty_eq_false_iff_exists.mp holds
    have overlaps : left.overlaps right = true :=
      overlaps_iff_exists_mem.mpr ⟨cell, (same cell).mp inShared⟩
    obtain ⟨other, found⟩ := Option.isSome_iff_exists.mp overlaps
    have isOther : shared = other := eq_of_mem_iff holds fun one =>
      (same one).trans (mem_iff_of_intersect? found one).symm
    rw [found, isOther]

theorem intersect?_comm (left right : Box) : left.intersect? right = right.intersect? left := by
  refine Option.ext fun shared => ?_
  rw [intersect?_eq_some_iff_mem, intersect?_eq_some_iff_mem]
  simp only [and_comm]

/-- On cells, the operations on two boxes are those on sets. Boxes have an
intersection if they have a cell in common, and it holds just their common
cells; they overlap under the same condition, and the order of the two does not
matter. One contains the other if it holds all cells of it. Their hull is the
least box around the cells of both. -/
theorem operations_on_cells (left right : Box) :
    ((∃ shared, left.intersect? right = some shared) ↔ ∃ cell, cell ∈ left ∧ cell ∈ right) ∧
      (∀ shared, left.intersect? right = some shared ↔
        shared.isEmpty = false ∧ ∀ cell, cell ∈ shared ↔ cell ∈ left ∧ cell ∈ right) ∧
      (left.overlaps right = true ↔ ∃ shared, left.intersect? right = some shared) ∧
      (left.overlaps right = right.overlaps left ∧
        left.intersect? right = right.intersect? left) ∧
      (left.contains right = true ↔ ∀ cell ∈ right, cell ∈ left) ∧
      ((left.hull right).IsLeastAround fun cell => cell ∈ left ∨ cell ∈ right) ∧
      ∀ outer : Box, outer.contains (left.hull right) = true ↔
        outer.contains left = true ∧ outer.contains right = true := by
  have overlapping : left.overlaps right = true ↔ ∃ shared, left.intersect? right = some shared :=
    Option.isSome_iff_exists
  refine ⟨?_, fun _ => intersect?_eq_some_iff_mem, overlapping,
    ⟨overlaps_comm, left.intersect?_comm right⟩, contains_iff_forall_mem,
    left.isLeastAround_self.hull right.isLeastAround_self, fun _ => contains_hull_iff⟩
  rw [← overlapping]
  exact overlaps_iff_exists_mem

end Box

end MeshTasks
