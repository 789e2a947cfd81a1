import MeshTasks.Mesh.Region
import MeshTasks.Error

/-!
# Levels

A level holds the regions of one resolution. It keeps them in the order of their
lower `x` corners together with the greatest width along `x`, so the regions
that a box touches are found in one stretch of the list. On a periodic axis the
level repeats itself; a shift is the offset to one of its images.

`Level.ofRegions` builds a level, and `Level.Coherent` is what it establishes.
-/

namespace MeshTasks

/-- The axes on which a level repeats itself. -/
structure Periodicity where
  x : Bool
  y : Bool
  z : Bool
deriving DecidableEq

namespace Periodicity

def none : Periodicity := ⟨false, false, false⟩

instance : Inhabited Periodicity := ⟨none⟩

/-- The steps to the images along an axis that is or is not periodic. -/
def steps (isPeriodic : Bool) : List Coord :=
  if isPeriodic then [⟨-1, by decide, by decide⟩, .zero, .one] else [.zero]

/-- The steps to all images; the step along `x` changes slowest. -/
def images (periodic : Periodicity) : List Vec :=
  (steps periodic.x).flatMap fun x =>
    (steps periodic.y).flatMap fun y =>
      (steps periodic.z).map fun z => ⟨x, y, z⟩

end Periodicity

namespace Level

/-- What a level promises: its ratio is positive, its regions are its own, hold
cells, lie in its domain, are no wider than its greatest width and stand in
order. -/
structure Coherent (index : Nat) (ratio : Vec) (regions : List Region) (domain : Box)
    (widest : Coord) : Prop where
  ratio_positive : ratio.isPositive = true
  on_level : ∀ region ∈ regions, region.level = index
  not_empty : ∀ region ∈ regions, region.box.isEmpty = false
  in_domain : ∀ region ∈ regions, domain.contains region.box = true
  within_widest :
    ∀ region ∈ regions, region.box.high.x.val - region.box.low.x.val ≤ widest.val
  ordered : regions.Pairwise (fun left right => left.precedes right = true)

/-- The box around some regions and the greatest width among them. -/
structure Survey where
  domain : Box
  widest : Coord

/-- The survey of no region. -/
def Survey.start : Survey := ⟨.origin, .zero⟩

/-- Adds the regions of a list to a survey. It stops at the first region that
belongs elsewhere, holds no cell or extends too far to be measured. -/
def survey (index : Nat) (seen : Survey) : List Region → Except Error Survey
  | [] => .ok seen
  | region :: rest =>
      if region.level ≠ index then
        .error (.levelMismatch region.id region.level index)
      else if region.box.isEmpty then
        .error (.emptyRegion region.id region.box)
      else do
        let extent ← orArithmetic region.box.extent
        survey index ⟨seen.domain.hull region.box, max seen.widest extent.x⟩ rest

/-- What holds of every region of a list that was surveyed to the end, and what
the survey keeps of the regions before it. -/
theorem survey_sound {index : Nat} {regions : List Region} {seen total : Survey}
    (surveyed : survey index seen regions = .ok total) :
    (∀ region ∈ regions, region.level = index ∧ region.box.isEmpty = false ∧
      total.domain.contains region.box = true ∧
        region.box.high.x.val - region.box.low.x.val ≤ total.widest.val) ∧
      (∀ box : Box, seen.domain.contains box = true → total.domain.contains box = true) ∧
        seen.widest.val ≤ total.widest.val := by
  induction regions generalizing seen with
  | nil =>
      cases surveyed
      exact ⟨fun _ member => absurd member List.not_mem_nil, fun _ inside => inside,
        Int.le_refl _⟩
  | cons head tail inductionHypothesis =>
      unfold survey at surveyed
      split at surveyed
      · cases surveyed
      · rename_i onLevel
        split at surveyed
        · cases surveyed
        · rename_i notEmpty
          cases measured : head.box.extent with
          | error fault =>
              rw [measured] at surveyed
              cases surveyed
          | ok extent =>
              rw [measured] at surveyed
              have ⟨tailFacts, keepsBoxes, keepsWidth⟩ := inductionHypothesis surveyed
              have width := (Box.extent_spec measured).1
              simp only [Coord.val_max] at keepsWidth
              refine ⟨fun region member => ?_,
                fun box inside => keepsBoxes box (Box.contains_hull_of_contains inside), by omega⟩
              rcases List.mem_cons.mp member with same | inTail
              · subst same
                exact ⟨Decidable.not_not.mp onLevel, Bool.eq_false_iff.mpr notEmpty,
                  keepsBoxes _ (Box.contains_hull_right _ _), by omega⟩
              · exact tailFacts region inTail

end Level

structure Level where
  index : Nat
  /-- The number of cells on each axis that make up a cell of the next coarser
  level. -/
  ratio : Vec
  periodic : Periodicity
  regions : List Region
  /-- The least box around the regions. -/
  domain : Box
  /-- The greatest width of a region along `x`. -/
  widest : Coord
  coherent : Level.Coherent index ratio regions domain widest
deriving DecidableEq

namespace Level

/-- The level of the given regions. -/
def ofRegions (index : Nat) (ratio : Vec) (periodic : Periodicity) (regions : List Region) :
    Except Error Level :=
  if positive : ratio.isPositive = true then
    match surveyed : survey index .start regions with
    | .error error => .error error
    | .ok total => .ok {
        index, ratio, periodic
        regions := regions.mergeSort Region.precedes
        domain := total.domain
        widest := total.widest
        coherent := {
          ratio_positive := positive
          on_level := fun region member =>
            ((survey_sound surveyed).1 region (List.mem_mergeSort.mp member)).1
          not_empty := fun region member =>
            ((survey_sound surveyed).1 region (List.mem_mergeSort.mp member)).2.1
          in_domain := fun region member =>
            ((survey_sound surveyed).1 region (List.mem_mergeSort.mp member)).2.2.1
          within_widest := fun region member =>
            ((survey_sound surveyed).1 region (List.mem_mergeSort.mp member)).2.2.2
          ordered := Region.pairwise_mergeSort regions } }
  else
    .error (.refinementRatio index ratio)

/-- The regions that share a cell with a box, in the order of the level. Only
regions that start before the end of the box and at most the greatest width
before its start can do so. -/
def selectOverlapping (level : Level) (box : Box) : List Region :=
  if box.isEmpty then
    []
  else
    let start := box.low.x.saturatingSub level.widest
    let window := (level.regions.dropWhile fun region => region.box.low.x < start).takeWhile
      fun region => region.box.low.x < box.high.x
    window.filter fun region => region.box.overlaps box

/-- The offsets to the images of the level on its periodic axes, the level
itself left out. -/
def shifts (level : Level) : Except Fault (List Vec) := do
  let extent ← level.domain.extent
  let offsets ← level.periodic.images.mapM fun step => step.mul extent
  return offsets.filter fun offset => decide (offset ≠ .zero)

end Level

end MeshTasks
