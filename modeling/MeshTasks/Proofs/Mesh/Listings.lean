import Mathlib.Data.Prod.Lex
import MeshTasks.Proofs.Mesh.Hulls
import MeshTasks.Proofs.Mesh.Sweep

/-!
# Levels and the listing of their regions

A survey goes through the regions of a level one by one, from an empty box at
the origin and no width. What it comes to is fixed by which regions there are:
the domain is the least box around all of them, and the width is the greatest
among them. So a level does not depend on the order in which its regions are
listed, as long as their numbers differ.
-/

namespace MeshTasks

/-- The number of cells of a region along `x`, if it holds any. -/
def Region.width (region : Region) : Int :=
  region.box.high.x.val - region.box.low.x.val

/-- What a level sorts its regions by: the lower `x` corner, then the number. -/
def Region.sortKey (region : Region) : Int ×ₗ Nat :=
  toLex (region.box.low.x.val, rank region.id)

/-- A region that a level takes in: its own, with cells, and small enough to be
measured. -/
structure Region.FitsOn (index : Nat) (region : Region) : Prop where
  on_level : region.level = index
  not_empty : region.box.isEmpty = false
  measured : ∃ extent, region.box.extent = .ok extent

/-! ## Sorting -/

namespace Region

variable {regions listed : List Region}

private theorem precedes_iff {left right : Region} :
    left.precedes right = true ↔ left.sortKey ≤ right.sortKey := by
  unfold sortKey
  rw [Prod.Lex.toLex_le_toLex]
  simp only [precedes, Bool.or_eq_true, Bool.and_eq_true, decide_eq_true_eq, Coord.lt_iff,
    Coord.ext_iff]

/-- Regions with different numbers are sorted strictly. -/
private theorem ascending_mergeSort (distinct : (regions.map id).Nodup) :
    (regions.mergeSort precedes).Pairwise fun left right => left.sortKey < right.sortKey := by
  have apart : (regions.mergeSort precedes).Pairwise fun left right => left.id ≠ right.id :=
    List.pairwise_map.mp (((List.mergeSort_perm regions precedes).map id).nodup_iff.mpr distinct)
  refine (pairwise_mergeSort regions).imp₂ (fun left right ordered different => ?_) apart
  refine lt_of_le_of_ne (precedes_iff.mp ordered) fun sameKey => different ?_
  exact Ranked.rank_injective (congrArg (fun key => (ofLex key).2) sameKey)

private theorem eq_of_ascending
    (ascending : regions.Pairwise fun left right => left.sortKey < right.sortKey)
    (listedAscending : listed.Pairwise fun left right => left.sortKey < right.sortKey)
    (same : listed.Perm regions) :
    listed = regions :=
  List.Perm.eq_of_pairwise (fun _ _ _ _ less more => absurd more (lt_asymm less))
    listedAscending ascending same

private theorem mergeSort_eq_of_perm
    (distinct : (regions.map id).Nodup)
    (reordered : listed.Perm regions) :
    listed.mergeSort precedes = regions.mergeSort precedes := by
  have listedDistinct : (listed.map id).Nodup := (reordered.map id).nodup_iff.mpr distinct
  refine eq_of_ascending (ascending_mergeSort distinct) (ascending_mergeSort listedDistinct) ?_
  calc (listed.mergeSort precedes).Perm listed := List.mergeSort_perm listed precedes
    List.Perm _ regions := reordered
    List.Perm _ (regions.mergeSort precedes) := (List.mergeSort_perm regions precedes).symm

end Region

/-! ## Surveys -/

namespace Level

variable {index : Nat} {ratio : Vec} {periodic : Periodicity} {regions listed : List Region}
  {seen total : Survey}

private theorem exists_survey_iff :
    (∃ total, survey index seen regions = .ok total) ↔
      ∀ region ∈ regions, region.FitsOn index := by
  induction regions generalizing seen with
  | nil => exact ⟨fun _ _ member => absurd member List.not_mem_nil, fun _ => ⟨seen, rfl⟩⟩
  | cons head tail inductionHypothesis =>
      rw [List.forall_mem_cons]
      constructor
      · rintro ⟨total, surveyed⟩
        obtain ⟨⟨onLevel, holds⟩, extent, measured, rest⟩ := survey_cons_eq_ok_iff.mp surveyed
        exact ⟨⟨onLevel, holds, extent, measured⟩, inductionHypothesis.mp ⟨total, rest⟩⟩
      · rintro ⟨⟨onLevel, holds, extent, measured⟩, tailFits⟩
        obtain ⟨total, rest⟩ := inductionHypothesis.mpr tailFits
        exact ⟨total, survey_cons_eq_ok_iff.mpr ⟨⟨onLevel, holds⟩, extent, measured, rest⟩⟩

/-- A survey goes on from the least box around some cells to the least one
around these and the cells of its regions. -/
theorem isLeastAround_of_survey
    {needed : Cell → Prop}
    (isLeast : seen.domain.IsLeastAround needed)
    (surveyed : survey index seen regions = .ok total) :
    total.domain.IsLeastAround fun cell => needed cell ∨ ∃ region ∈ regions, cell ∈ region.box := by
  induction regions generalizing seen needed with
  | nil =>
      cases surveyed
      exact isLeast.congr fun cell => by simp
  | cons head tail inductionHypothesis =>
      obtain ⟨_, _, _, rest⟩ := survey_cons_eq_ok_iff.mp surveyed
      refine (inductionHypothesis (isLeast.hull head.box.isLeastAround_self) rest).congr
        fun cell => ?_
      rw [or_assoc, List.exists_mem_cons_iff]

/-- A survey goes on from some width to the greatest one among that and those of
its regions. -/
theorem widest_le_iff_of_survey
    {bound : Int}
    (surveyed : survey index seen regions = .ok total) :
    total.widest.val ≤ bound ↔
      seen.widest.val ≤ bound ∧ ∀ region ∈ regions, region.width ≤ bound := by
  induction regions generalizing seen with
  | nil =>
      cases surveyed
      exact (and_iff_left fun _ member => absurd member List.not_mem_nil).symm
  | cons head tail inductionHypothesis =>
      obtain ⟨⟨_, holds⟩, extent, measured, rest⟩ := survey_cons_eq_ok_iff.mp surveyed
      have spans := Box.isEmpty_eq_false_iff.mp holds
      have widthEq : extent.x.val = head.width := by
        have extentX := (Box.extent_spec measured).1
        unfold Region.width
        omega
      rw [inductionHypothesis rest, Coord.val_max, widthEq, Int.max_le, List.forall_mem_cons,
        and_assoc]

/-- The first survey starts from the least box around no cell. -/
theorem isLeastAround_domain
    (surveyed : survey index .start regions = .ok total) :
    total.domain.IsLeastAround fun cell => ∃ region ∈ regions, cell ∈ region.box := by
  have startIsEmpty : ∀ cell, cell ∉ Survey.start.domain := Box.isEmpty_iff.mp rfl
  exact (isLeastAround_of_survey Survey.start.domain.isLeastAround_self surveyed).congr
    fun cell => or_iff_right (startIsEmpty cell)

section

variable {other : Survey}
  (same : ∀ region, region ∈ listed ↔ region ∈ regions)
  (surveyed : survey index .start regions = .ok total)

include same surveyed

private theorem domain_eq_of_mem_iff (otherSurveyed : survey index .start listed = .ok other) :
    other.domain = total.domain := by
  have isLeast := isLeastAround_domain surveyed
  have otherIsLeast := (isLeastAround_domain otherSurveyed).congr fun cell =>
    exists_congr fun region => and_congr_left' (same region)
  -- Least boxes are equal only if they hold cells, so the empty list is a case of its own.
  cases regions with
  | nil =>
      have nothing : listed = [] :=
        List.eq_nil_iff_forall_not_mem.mpr fun region => mt (same region).mp List.not_mem_nil
      subst nothing
      cases otherSurveyed
      cases surveyed
      rfl
  | cons head tail =>
      have headFits := exists_survey_iff.mp ⟨total, surveyed⟩ head List.mem_cons_self
      obtain ⟨cell, inHead⟩ := Box.isEmpty_eq_false_iff_exists.mp headFits.not_empty
      have inDomain := otherIsLeast.mem_of_needed cell ⟨head, List.mem_cons_self, inHead⟩
      exact otherIsLeast.unique isLeast (Box.isEmpty_eq_false_iff_exists.mpr ⟨cell, inDomain⟩)

private theorem widest_eq_of_mem_iff (otherSurveyed : survey index .start listed = .ok other) :
    other.widest = total.widest := by
  have sameBounds (bound : Int) : other.widest.val ≤ bound ↔ total.widest.val ≤ bound := by
    rw [widest_le_iff_of_survey otherSurveyed, widest_le_iff_of_survey surveyed]
    simp only [same]
  apply Coord.ext
  apply Int.le_antisymm
  · exact (sameBounds _).mpr (Int.le_refl _)
  · exact (sameBounds _).mp (Int.le_refl _)

/-- What a survey comes to depends on which regions there are, not on their
order nor on how often each of them is listed. -/
private theorem survey_of_mem_iff : survey index .start listed = .ok total := by
  have fits := exists_survey_iff.mp ⟨total, surveyed⟩
  obtain ⟨other, otherSurveyed⟩ : ∃ other, survey index .start listed = .ok other :=
    exists_survey_iff.mpr fun region member => fits region ((same region).mp member)
  have sameDomain := domain_eq_of_mem_iff same surveyed otherSurveyed
  have sameWidest := widest_eq_of_mem_iff same surveyed otherSurveyed
  rw [otherSurveyed]
  obtain ⟨_, _⟩ := other
  cases sameDomain
  cases sameWidest
  rfl

end

private theorem exists_ofRegions_iff :
    (∃ level, ofRegions index ratio periodic regions = .ok level) ↔
      ratio.isPositive = true ∧ ∀ region ∈ regions, region.FitsOn index := by
  constructor
  · rintro ⟨level, made⟩
    obtain ⟨positive, total, surveyed, _⟩ := ofRegions_eq_ok_iff.mp made
    exact ⟨positive, exists_survey_iff.mp ⟨total, surveyed⟩⟩
  · rintro ⟨positive, fits⟩
    obtain ⟨total, surveyed⟩ : ∃ total, survey index .start regions = .ok total :=
      exists_survey_iff.mpr fits
    unfold ofRegions
    rw [dif_pos positive]
    split
    · rename_i failed
      rw [surveyed] at failed
      cases failed
    · exact ⟨_, rfl⟩

private theorem ofRegions_eq_ok_iff_of_perm
    {level : Level}
    (distinct : (regions.map Region.id).Nodup)
    (reordered : listed.Perm regions) :
    ofRegions index ratio periodic listed = .ok level ↔
      ofRegions index ratio periodic regions = .ok level := by
  have sameSurvey (total : Survey) :
      survey index .start listed = .ok total ↔ survey index .start regions = .ok total :=
    ⟨survey_of_mem_iff fun _ => reordered.mem_iff.symm,
      survey_of_mem_iff fun _ => reordered.mem_iff⟩
  rw [ofRegions_eq_ok_iff, ofRegions_eq_ok_iff, Region.mergeSort_eq_of_perm distinct reordered]
  simp only [sameSurvey]

/-- Two listings of regions with different numbers make the same level, or
neither makes one; they make one if the ratio is positive and each region fits
on the level. It keeps the regions by their lower `x` corners and numbers, its
width is the greatest among theirs, and its domain is the least box around
them. -/
theorem ofRegions_of_perm
    (distinct : (regions.map Region.id).Nodup)
    (reordered : listed.Perm regions) :
    (∀ level, ofRegions index ratio periodic listed = .ok level ↔
        ofRegions index ratio periodic regions = .ok level) ∧
      ((∃ level, ofRegions index ratio periodic regions = .ok level) ↔
        ratio.isPositive = true ∧ ∀ region ∈ regions, region.FitsOn index) ∧
      ∀ level, ofRegions index ratio periodic regions = .ok level →
        (level.regions.Perm regions ∧
            level.regions.Pairwise fun left right => left.sortKey < right.sortKey) ∧
          (∀ bound : Int, level.widest.val ≤ bound ↔
            0 ≤ bound ∧ ∀ region ∈ regions, region.width ≤ bound) ∧
          level.domain.IsLeastAround fun cell => ∃ region ∈ regions, cell ∈ region.box := by
  refine ⟨fun level => ofRegions_eq_ok_iff_of_perm distinct reordered, exists_ofRegions_iff,
    fun level made => ?_⟩
  obtain ⟨total, surveyed, regionsEq, domainEq, widestEq⟩ := exists_survey_of_ofRegions made
  rw [regionsEq, domainEq, widestEq]
  exact ⟨⟨List.mergeSort_perm regions Region.precedes, Region.ascending_mergeSort distinct⟩,
    fun bound => widest_le_iff_of_survey surveyed, isLeastAround_domain surveyed⟩

end Level

/-! ## Regions that start at one place -/

/-- Two regions start at one place, and a third at the least coordinate. -/
def Shore.tied : List Region :=
  [region 3 5 9, region 2 5 12, wide]

/-- However they are listed, the wide region comes first and the numbers decide
on the others. -/
theorem ofRegions_of_perm_shore :
    (Shore.tied.map Region.id).Nodup ∧ Shore.tied.reverse.Perm Shore.tied ∧
      ∃ level, Level.ofRegions 0 .one .none Shore.tied = .ok level ∧
        Level.ofRegions 0 .one .none Shore.tied.reverse = .ok level ∧
          level.regions = [Shore.wide, Shore.region 2 5 12, Shore.region 3 5 9] ∧
            level.widest.val = 48 := by
  have distinct : (Shore.tied.map Region.id).Nodup := by decide
  have reordered : Shore.tied.reverse.Perm Shore.tied := List.reverse_perm Shore.tied
  obtain ⟨same, _, facts⟩ := @Level.ofRegions_of_perm 0 .one .none _ _ distinct reordered
  refine ⟨distinct, reordered, _, rfl, (same _).mpr rfl, ?_, rfl⟩
  obtain ⟨⟨kept, ascending⟩, _⟩ := facts _ rfl
  exact Region.eq_of_ascending (by decide) ascending (kept.trans (by decide))

end MeshTasks
