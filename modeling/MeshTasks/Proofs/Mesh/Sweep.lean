import MeshTasks.Proofs.Mesh.Cells

/-!
# The sweep over a level

A level is made by a survey that takes in its regions one by one. It keeps them
all, in the order of their lower `x` corners. The sweep over one stretch of them
finds what a look at each of them would find: the regions that share a cell with
the box. No width is too great and no corner too close to the bounds for that,
since the stretch starts the greatest width before the box, or at the least
coordinate.
-/

namespace MeshTasks

/-- The boxes have a cell in common. -/
def Box.SharesCell (left right : Box) : Prop :=
  ∃ cell, cell ∈ left ∧ cell ∈ right

instance (left right : Box) : Decidable (left.SharesCell right) :=
  decidable_of_iff _ Box.overlaps_iff_exists_mem

/-- A difference with nothing below zero taken away is stopped at the least
coordinate only. -/
private theorem Coord.val_saturatingSub
    {left right : Coord}
    (nonneg : 0 ≤ right.val) :
    (left.saturatingSub right).val = max (left.val - right.val) (-2147483648) := by
  have upper := left.upper
  unfold saturatingSub clamp
  split
  · dsimp only
    omega
  · rw [dif_neg (by omega)]
    dsimp only
    omega

namespace Level

variable {index : Nat} {ratio : Vec} {periodic : Periodicity} {regions : List Region}
  {level : Level}

/-- A survey goes on past a region if that belongs to the level, holds cells and
can be measured. -/
theorem survey_cons_eq_ok_iff
    {head : Region} {tail : List Region} {seen total : Survey} :
    survey index seen (head :: tail) = .ok total ↔
      (head.level = index ∧ head.box.isEmpty = false) ∧
        ∃ extent, head.box.extent = .ok extent ∧
          survey index ⟨seen.domain.hull head.box, max seen.widest extent.x⟩ tail = .ok total := by
  rw [survey]
  by_cases onLevel : head.level = index
  · rw [if_neg (Decidable.not_not.mpr onLevel)]
    cases empty : head.box.isEmpty with
    | true => simp
    | false =>
        rw [if_neg Bool.false_ne_true, bind_eq_ok_iff]
        simp only [orArithmetic_eq_ok_iff, onLevel, true_and]
  · simp [onLevel]

/-- A level is made of some regions if its ratio is positive and its regions can
be surveyed. -/
theorem ofRegions_eq_ok_iff :
    ofRegions index ratio periodic regions = .ok level ↔
      ratio.isPositive = true ∧ ∃ total, survey index .start regions = .ok total ∧
        (level.index = index ∧ level.ratio = ratio ∧ level.periodic = periodic) ∧
          level.regions = regions.mergeSort Region.precedes ∧ level.domain = total.domain ∧
            level.widest = total.widest := by
  unfold ofRegions
  constructor
  · intro made
    split at made
    · rename_i positive
      split at made
      · cases made
      · rename_i total surveyed
        cases made
        exact ⟨positive, total, surveyed, ⟨rfl, rfl, rfl⟩, rfl, rfl, rfl⟩
    · cases made
  · obtain ⟨_, _, _, _, _, _, coherent⟩ := level
    rintro ⟨positive, total, surveyed, ⟨rfl, rfl, rfl⟩, rfl, rfl, rfl⟩
    rw [dif_pos positive]
    split
    · rename_i failed
      rw [surveyed] at failed
      cases failed
    · rename_i again
      rw [surveyed] at again
      cases again
      rfl

theorem exists_survey_of_ofRegions
    (made : ofRegions index ratio periodic regions = .ok level) :
    ∃ total, survey index .start regions = .ok total ∧
      level.regions = regions.mergeSort Region.precedes ∧ level.domain = total.domain ∧
        level.widest = total.widest := by
  obtain ⟨_, total, surveyed, _, kept⟩ := ofRegions_eq_ok_iff.mp made
  exact ⟨total, surveyed, kept⟩

/-- The sweep over a level that was made of some regions finds those of them
that share a cell with the box, each as often as it was given, in the order of
the level. The one difference it takes stops at the least coordinate. -/
theorem selectOverlapping_of_ofRegions
    (made : ofRegions index ratio periodic regions = .ok level)
    (box : Box) :
    (level.regions.Perm regions ∧
        level.regions.Pairwise fun left right => left.precedes right = true) ∧
      level.selectOverlapping box =
          level.regions.filter (fun region => decide (region.box.SharesCell box)) ∧
        (box.low.x.saturatingSub level.widest).val =
          max (box.low.x.val - level.widest.val) (-2147483648) := by
  obtain ⟨total, surveyed, regionsEq, _, widestEq⟩ := exists_survey_of_ofRegions made
  refine ⟨⟨?_, level.coherent.ordered⟩, ?_, ?_⟩
  · rw [regionsEq]
    exact List.mergeSort_perm regions Region.precedes
  · rw [selectOverlapping_eq_filter]
    refine List.filter_congr fun region _ => ?_
    rw [Bool.eq_iff_iff, decide_eq_true_eq]
    exact Box.overlaps_iff_exists_mem
  · rw [widestEq]
    exact Coord.val_saturatingSub (survey_sound surveyed).2.2

end Level

/-! ## A wide region at the least coordinate -/

namespace Shore

def region (number : UInt32) (first last : Int) : Region :=
  ⟨⟨number⟩, 0, ⟨⟨.clamp first, .zero, .zero⟩, ⟨.clamp last, .one, .one⟩⟩⟩

def wide : Region :=
  region 1 (-2147483648) (-2147483600)

/-- The wide region reaches past one that starts after it. -/
def given : List Region :=
  [region 0 (-2147483630) (-2147483620), region 2 2147483640 2147483647, wide]

def queried : Box :=
  ⟨⟨.clamp (-2147483610), .zero, .zero⟩, ⟨.clamp (-2147483605), .one, .one⟩⟩

end Shore

theorem selectOverlapping_of_ofRegions_shore :
    ∃ level, Level.ofRegions 0 .one .none Shore.given = .ok level ∧
      level.selectOverlapping Shore.queried = [Shore.wide] := by
  obtain ⟨level, made⟩ : ∃ level, Level.ofRegions 0 .one .none Shore.given = .ok level := ⟨_, rfl⟩
  obtain ⟨⟨reordered, _⟩, selected, _⟩ := Level.selectOverlapping_of_ofRegions made Shore.queried
  refine ⟨level, made, ?_⟩
  rw [selected]
  exact List.perm_singleton.mp (reordered.filter _)

end MeshTasks
