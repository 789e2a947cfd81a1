import MeshTasks.Proofs.Mesh.Reach

/-!
# Numbers of regions and of levels

A grid is made of any levels whose regions have numbers of their own, and it
finds each region by its number. A region also knows the number of its level,
which is the index of the level that keeps it. Making a grid does not compare
these indices with the positions of the levels, so the level number of a region
leads back to its level exactly where the two agree.
-/

namespace MeshTasks

namespace Grid

variable {grid : Grid}

private theorem firstRepeated_eq_none_iff {seen ids : List RegionId} :
    firstRepeated seen ids = none ↔ ids.Nodup ∧ ∀ id ∈ ids, id ∉ seen := by
  refine ⟨nodup_of_firstRepeated_eq_none, ?_⟩
  induction ids generalizing seen with
  | nil => exact fun _ => rfl
  | cons head tail inductionHypothesis =>
      rintro ⟨distinct, unseen⟩
      obtain ⟨headFresh, tailDistinct⟩ := List.nodup_cons.mp distinct
      unfold firstRepeated
      rw [if_neg (unseen head List.mem_cons_self)]
      refine inductionHypothesis ⟨tailDistinct, fun id member inSeen => ?_⟩
      rcases List.mem_cons.mp inSeen with rfl | seenBefore
      · exact headFresh member
      · exact unseen id (List.mem_cons_of_mem head member) seenBefore

/-- The number that is reported was seen before or stands twice in the list. -/
private theorem seen_or_twice_of_firstRepeated
    {seen ids : List RegionId} {id : RegionId}
    (repeated : firstRepeated seen ids = some id) :
    id ∈ seen ∧ 0 < ids.count id ∨ 1 < ids.count id := by
  induction ids generalizing seen with
  | nil => cases repeated
  | cons head tail inductionHypothesis =>
      unfold firstRepeated at repeated
      split at repeated
      · rename_i headSeen
        cases repeated
        exact Or.inl ⟨headSeen, List.count_pos_iff.mpr List.mem_cons_self⟩
      · have atMost : tail.count id ≤ (head :: tail).count id :=
          (List.sublist_cons_self head tail).count_le id
        rcases inductionHypothesis repeated with ⟨inSeen, inTail⟩ | twice
        · rcases List.mem_cons.mp inSeen with rfl | seenBefore
          · right
            rw [List.count_cons_self]
            omega
          · exact Or.inl ⟨seenBefore, by omega⟩
        · exact Or.inr (by omega)

/-- A grid of some levels is all that making one of them can give. -/
theorem ofLevels_eq_ok_iff {levels : List Level} :
    ofLevels levels = .ok grid ↔ grid.levels = levels := by
  constructor
  · intro made
    unfold ofLevels at made
    split at made
    · cases made
    · cases made
      rfl
  · rintro rfl
    have noneRepeated : firstRepeated [] ((regionsOf grid.levels).map Region.id) = none :=
      firstRepeated_eq_none_iff.mpr ⟨grid.distinct, fun _ _ => List.not_mem_nil⟩
    unfold ofLevels
    split
    · rename_i repeated
      rw [noneRepeated] at repeated
      cases repeated
    · rfl

/-- Making a grid fails only by reporting a number that two regions have. -/
private theorem twice_of_ofLevels
    {levels : List Level} {error : Error}
    (failed : ofLevels levels = .error error) :
    ∃ id, error = .duplicateRegion id ∧ 1 < ((regionsOf levels).map Region.id).count id := by
  unfold ofLevels at failed
  split at failed
  · rename_i id repeated
    cases failed
    rcases seen_or_twice_of_firstRepeated repeated with ⟨inNothing, _⟩ | twice
    · cases inNothing
    · exact ⟨id, rfl, twice⟩
  · cases failed

/-- No region is kept by two levels of a grid. -/
private theorem position_unique
    {first second : Nat} {left right : Level} {region : Region}
    (leftAt : grid.level? first = some left)
    (rightAt : grid.level? second = some right)
    (inLeft : region ∈ left.regions)
    (inRight : region ∈ right.regions) :
    first = second := by
  have apart := (List.nodup_flatMap.mp (List.Nodup.of_map Region.id grid.distinct)).2
  rw [List.pairwise_iff_getElem] at apart
  obtain ⟨firstBound, rfl⟩ := List.getElem?_eq_some_iff.mp leftAt
  obtain ⟨secondBound, rfl⟩ := List.getElem?_eq_some_iff.mp rightAt
  rcases Nat.lt_trichotomy first second with before | same | after
  · exact absurd inRight (apart first second firstBound secondBound before inLeft)
  · exact same
  · exact absurd inLeft (apart second first secondBound firstBound after inRight)

/-- The level at the position that the level number of a region names is its own
exactly if this level's index is its position. -/
theorem level?_region_level_iff
    {position : Nat} {level : Level} {region : Region}
    (levelAt : grid.level? position = some level)
    (inLevel : region ∈ level.regions) :
    grid.level? region.level = some level ↔ level.index = position := by
  rw [level.coherent.on_level region inLevel]
  exact ⟨fun numbered => position_unique numbered levelAt inLevel inLevel,
    fun numbered => numbered.symm ▸ levelAt⟩

/-- A grid is made of levels unless the number of a region occurs more than
once. It then finds under a number the region of that number that one of the
levels keeps. The level number of a region leads back to the level that keeps it
exactly if the index of this level is its position. -/
theorem region?_of_ofLevels (levels : List Level) :
    ((∃ error, ofLevels levels = .error error) ↔
        ∃ id, 1 < ((regionsOf levels).map Region.id).count id) ∧
      ∀ grid, ofLevels levels = .ok grid →
        (∀ id region, grid.region? id = some region ↔
            (∃ level ∈ levels, region ∈ level.regions) ∧ region.id = id) ∧
          ∀ position level region, levels[position]? = some level → region ∈ level.regions →
            (grid.level? region.level = some level ↔ level.index = position) := by
  constructor
  · constructor
    · rintro ⟨error, failed⟩
      obtain ⟨id, _, twice⟩ := twice_of_ofLevels failed
      exact ⟨id, twice⟩
    · rintro ⟨id, twice⟩
      cases made : ofLevels levels with
      | error error => exact ⟨error, rfl⟩
      | ok grid =>
          have once := List.nodup_iff_count_le_one.mp grid.distinct id
          rw [ofLevels_eq_ok_iff.mp made] at once
          omega
  · intro grid made
    obtain rfl := ofLevels_eq_ok_iff.mp made
    refine ⟨fun id region => ?_, fun position level region => level?_region_level_iff⟩
    rw [region?_eq_some_iff, regions, regionsOf, List.mem_flatMap]

end Grid

/-! ## A cube of the finer level -/

namespace Fine

def cube : Region := ⟨⟨1⟩, 1, ⟨.zero, .splat (.clamp 8)⟩⟩

def coarse : Level where
  index := 0
  ratio := .one
  periodic := .none
  regions := [⟨⟨0⟩, 0, ⟨.zero, .splat (.clamp 4)⟩⟩]
  domain := ⟨.zero, .splat (.clamp 4)⟩
  widest := .clamp 4
  coherent := by constructor <;> decide

def fine : Level where
  index := 1
  ratio := .splat (.clamp 2)
  periodic := .none
  regions := [cube]
  domain := ⟨.zero, .splat (.clamp 8)⟩
  widest := .clamp 8
  coherent := by constructor <;> decide

end Fine

theorem region?_of_ofLevels_fine :
    ∃ grid, Grid.ofLevels [Fine.coarse, Fine.fine] = .ok grid ∧
      grid.region? ⟨1⟩ = some Fine.cube ∧ grid.level? Fine.cube.level = some Fine.fine := by
  obtain ⟨grid, made⟩ : ∃ grid, Grid.ofLevels [Fine.coarse, Fine.fine] = .ok grid := ⟨_, rfl⟩
  obtain ⟨found, leadsBack⟩ := (Grid.region?_of_ofLevels [Fine.coarse, Fine.fine]).2 grid made
  refine ⟨grid, made, ?_, ?_⟩
  · exact (found ⟨1⟩ Fine.cube).mpr ⟨⟨Fine.fine, by simp, List.mem_cons_self⟩, rfl⟩
  · exact (leadsBack 1 Fine.fine Fine.cube rfl List.mem_cons_self).mpr rfl

/-- The finer level by itself makes a grid, and its region leads to no level
there. -/
theorem level_number_astray_fine :
    ∃ grid, Grid.ofLevels [Fine.fine] = .ok grid ∧
      grid.region? ⟨1⟩ = some Fine.cube ∧ grid.level? Fine.cube.level = none :=
  ⟨_, rfl, rfl, rfl⟩

end MeshTasks
