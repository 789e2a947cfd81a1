import MeshTasks.Proofs.Mesh.Bounds
import MeshTasks.Proofs.Mesh.Numbering
import MeshTasks.Proofs.Mesh.Sweep
import MeshTasks.Proofs.Mesh.WholeDomain

/-!
# Coordinates with headroom

On a grid of one level a box travels at most one halo and one shift from its
region, and a shift leads over no more than the domain. So where the corners of
all regions lie within a bound, three times the bound and the width of the
widest halo is as far as any coordinate gets, and as long as this can be a
coordinate no operation on the level overflows.
-/

namespace MeshTasks

/-! ## The level -/

namespace Level

variable {bound : Int} {index : Nat} {ratio : Vec} {periodic : Periodicity}
  {regions : List Region} {level : Level}

/-- The hull of boxes within a bound lies within it. -/
theorem within_of_survey
    {seen total : Survey}
    (within : ∀ region ∈ regions, region.box.Within bound)
    (seenWithin : seen.domain.Within bound)
    (surveyed : survey index seen regions = .ok total) :
    total.domain.Within bound := by
  induction regions generalizing seen with
  | nil =>
      cases surveyed
      exact seenWithin
  | cons head tail inductionHypothesis =>
      obtain ⟨_, _, _, rest⟩ := survey_cons_eq_ok_iff.mp surveyed
      refine inductionHypothesis (fun region member =>
        within region (List.mem_cons_of_mem head member)) ?_ rest
      exact seenWithin.hull (within head List.mem_cons_self)

private theorem survey_ne_arithmetic
    {seen : Survey}
    (within : ∀ region ∈ regions, region.box.Within bound)
    (fits : 2 * bound ≤ 2147483647)
    (fault : Fault) :
    survey index seen regions ≠ .error (.arithmetic fault) := by
  intro failed
  induction regions generalizing seen with
  | nil => cases failed
  | cons head tail inductionHypothesis =>
      obtain ⟨extent, measured⟩ := (within head List.mem_cons_self).exists_extent fits
      unfold survey at failed
      split at failed
      · cases failed
      · split at failed
        · cases failed
        · rw [measured] at failed
          exact inductionHypothesis (fun region member =>
            within region (List.mem_cons_of_mem head member)) failed

private theorem ofRegions_ne_arithmetic
    (within : ∀ region ∈ regions, region.box.Within bound)
    (fits : 2 * bound ≤ 2147483647)
    (fault : Fault) :
    ofRegions index ratio periodic regions ≠ .error (.arithmetic fault) := by
  intro failed
  unfold ofRegions at failed
  split at failed
  · split at failed
    · rename_i surveyed
      cases failed
      exact survey_ne_arithmetic within fits fault surveyed
    · cases failed
  · cases failed

private theorem index_of_ofRegions (made : ofRegions index ratio periodic regions = .ok level) :
    level.index = index := by
  obtain ⟨_, _, _, ⟨indexEq, _⟩, _⟩ := ofRegions_eq_ok_iff.mp made
  exact indexEq

private theorem mem_of_ofRegions
    {region : Region}
    (made : ofRegions index ratio periodic regions = .ok level) :
    region ∈ level.regions ↔ region ∈ regions := by
  obtain ⟨_, _, regionsEq, _⟩ := exists_survey_of_ofRegions made
  rw [regionsEq, List.mem_mergeSort]

private theorem domain_within
    (within : ∀ region ∈ regions, region.box.Within bound)
    (nonneg : 0 ≤ bound)
    (made : ofRegions index ratio periodic regions = .ok level) :
    level.domain.Within bound := by
  obtain ⟨total, surveyed, _, domainEq, _⟩ := exists_survey_of_ofRegions made
  have atOrigin : Vec.zero.Within bound := by
    intro axis
    rw [Vec.get_zero]
    omega
  rw [domainEq]
  exact within_of_survey within ⟨atOrigin, atOrigin⟩ surveyed

end Level

/-! ## Boxes around a region -/

section

variable {bound reach : Int} {level : Level} {needed : Box}

/-- A box is moved back by each shift. -/
private theorem exists_moved
    {shift : Vec}
    (shiftWithin : shift.Within (2 * bound))
    (neededWithin : needed.Within (bound + reach))
    (fits : 3 * bound + reach ≤ 2147483647) :
    ∃ back moved, shift.neg = .ok back ∧ needed.translate back = .ok moved := by
  have sumNonneg := neededWithin.nonneg
  obtain ⟨back, backOk, backWithin⟩ := shiftWithin.exists_neg (by omega)
  obtain ⟨moved, movedOk⟩ := neededWithin.exists_translate backWithin (by omega)
  exact ⟨back, moved, backOk, movedOk⟩

variable
  (domainWithin : level.domain.Within bound)
  (neededWithin : needed.Within (bound + reach))
  (nonneg : 0 ≤ reach)
  (fits : 3 * bound + reach ≤ 2147483647)

include domainWithin neededWithin nonneg fits

private theorem exists_piecesWithImages : ∃ pieces, piecesWithImages level needed = .ok pieces := by
  have boundNonneg := domainWithin.nonneg
  obtain ⟨shifts, shiftsOk, shiftsWithin⟩ := Level.exists_shifts_within domainWithin (by omega)
  have each : ∀ shift ∈ shifts, ∃ image, (do
      let back ← shift.neg
      let moved ← needed.translate back
      return piecesWithin level moved shift) = Except.ok image := by
    intro shift member
    obtain ⟨back, moved, backOk, movedOk⟩ :=
      exists_moved (shiftsWithin shift member) neededWithin fits
    exact ⟨_, bind_eq_ok_iff.mpr ⟨back, backOk, bind_eq_ok_iff.mpr ⟨moved, movedOk, rfl⟩⟩⟩
  obtain ⟨images, imagesOk⟩ := exists_results_of_mapM each
  exact ⟨_, bind_eq_ok_iff.mpr ⟨shifts, shiftsOk, bind_eq_ok_iff.mpr ⟨images, imagesOk, rfl⟩⟩⟩

private theorem exists_touchedOn : ∃ touched, Placement.touchedOn level needed = .ok touched := by
  have boundNonneg := domainWithin.nonneg
  obtain ⟨shifts, shiftsOk, shiftsWithin⟩ := Level.exists_shifts_within domainWithin (by omega)
  have each : ∀ shift ∈ shifts, ∃ image, (do
      let back ← shift.neg
      needed.translate back) = Except.ok image := by
    intro shift member
    obtain ⟨back, moved, backOk, movedOk⟩ :=
      exists_moved (shiftsWithin shift member) neededWithin fits
    exact ⟨moved, bind_eq_ok_iff.mpr ⟨back, backOk, movedOk⟩⟩
  obtain ⟨images, imagesOk⟩ := exists_results_of_mapM each
  exact ⟨_, bind_eq_ok_iff.mpr ⟨shifts, shiftsOk, bind_eq_ok_iff.mpr ⟨images, imagesOk, rfl⟩⟩⟩

end

/-- The boxes of a halo lie no farther out than the halo is wide, those of a
halo of negative width no farther out than it takes away. -/
private theorem Halo.exists_boxes
    {bound reach : Int} {halo : Halo} {domain box : Box}
    (domainWithin : domain.Within bound)
    (boxWithin : box.Within bound)
    (lower : -reach ≤ halo.width.val)
    (upper : halo.width.val ≤ reach)
    (fits : bound + reach ≤ 2147483647) :
    ∃ boxes, halo.boxes domain box = .ok boxes ∧
      ∀ needed ∈ boxes, needed.Within (bound + reach) := by
  have wider : bound ≤ bound + reach := by omega
  unfold Halo.boxes
  cases halo.shape with
  | none => exact ⟨_, rfl, List.forall_mem_singleton.mpr (boxWithin.mono wider)⟩
  | domainWide => exact ⟨_, rfl, List.forall_mem_singleton.mpr (domainWithin.mono wider)⟩
  | cornerAdjacent =>
      obtain ⟨dilated, dilatedOk, dilatedWithin⟩ := boxWithin.exists_dilate lower upper fits
      exact ⟨_, bind_eq_ok_iff.mpr ⟨dilated, dilatedOk, rfl⟩,
        List.forall_mem_singleton.mpr dilatedWithin⟩
  | faceAdjacent =>
      exact exists_results_all_of_mapM fun axis _ =>
        boxWithin.exists_dilateAxis lower upper fits axis

/-! ## A grid of one level -/

/-- A grid has one level, with room for halos up to a reach around what lies
within a bound. -/
structure Grid.HasRoom (grid : Grid) (level : Level) (bound reach : Nat) : Prop where
  alone : grid.levels = [level]
  numbered : level.index = 0
  domain_within : level.domain.Within bound
  within : ∀ region ∈ level.regions, region.box.Within bound
  fits : 3 * (bound : Int) + reach ≤ 2147483647

namespace Grid.HasRoom

variable {grid : Grid} {level : Level} {bound reach : Nat} {region : Region} {unit : WorkUnit}
  {access : Access} {width : Coord}

section

variable (room : grid.HasRoom level bound reach)

include room

private theorem mem_iff : region ∈ grid.regions ↔ region ∈ level.regions := by
  rw [Grid.regions, Grid.regionsOf, room.alone]
  simp

private theorem level?_zero : grid.level? 0 = some level := by
  rw [Grid.level?, room.alone]
  rfl

variable (inLevel : region ∈ level.regions)

include inLevel

private theorem level_eq : region.level = 0 := by
  rw [level.coherent.on_level region inLevel, room.numbered]

private theorem level?_eq : grid.level? region.level = some level := by
  rw [room.level_eq inLevel, room.level?_zero]

theorem exists_haloPieces
    {halo : Halo}
    (lower : -reach ≤ halo.width.val)
    (upper : halo.width.val ≤ reach) :
    ∃ pieces, haloPieces grid halo region level 0 = .ok pieces := by
  have fits := room.fits
  obtain ⟨boxes, boxesOk, boxesWithin⟩ :=
    Halo.exists_boxes room.domain_within (room.within region inLevel) lower upper (by omega)
  have each : ∀ needed ∈ boxes, ∃ part,
      (if halo.isGhosted then
        piecesWithImages level needed
      else
        .ok (piecesWithin level needed .zero)) = Except.ok part := by
    intro needed member
    split
    · exact exists_piecesWithImages room.domain_within (boxesWithin needed member) (by omega) fits
    · exact ⟨_, rfl⟩
  obtain ⟨parts, partsOk⟩ := exists_results_of_mapM each
  refine ⟨_, haloPieces_zero_eq_ok_iff.mpr ⟨boxes, parts, ?_, partsOk, rfl⟩⟩
  rw [room.level?_eq inLevel]
  exact boxesOk

theorem exists_piecesFor
    (onLevel : access.domain = .regionBound ∨ access.domain = .wholeDomain)
    (lower : -reach ≤ access.halo.width.val)
    (upper : access.halo.width.val ≤ reach) :
    ∃ pieces, piecesFor grid unit access region.id = .ok pieces := by
  have regionAt := Grid.region?_of_mem_level (room.level?_eq inLevel) inLevel
  have levelAt := room.level?_eq inLevel
  rcases onLevel with toBound | toWhole
  · rw [piecesFor_of_bound regionAt levelAt toBound]
    split
    · obtain ⟨pieces, piecesOk⟩ := room.exists_haloPieces inLevel lower upper
      exact ⟨pieces, orArithmetic_eq_ok_iff.mpr piecesOk⟩
    · exact ⟨_, rfl⟩
  · have same : access.toWholeDomain = access := by
      unfold Access.toWholeDomain
      rw [← toWhole]
    rw [← same]
    exact ⟨_, piecesFor_toWholeDomain.mpr ⟨region, level, regionAt, levelAt, rfl⟩⟩

/-- A grid of one level has no coarser and no finer one to be reached. -/
theorem exists_reachOf
    (lower : -reach ≤ width.val)
    (upper : width.val ≤ reach) :
    ∃ reached, Placement.reachOf grid width region = .ok reached := by
  have fits := room.fits
  obtain ⟨around, aroundOk, aroundWithin⟩ :=
    (room.within region inLevel).exists_dilate lower upper (by omega)
  obtain ⟨touched, touchedOk⟩ :=
    exists_touchedOn room.domain_within aroundWithin (by omega) fits
  have here : Placement.touchedAt grid region.level (some around) = .ok touched := by
    unfold Placement.touchedAt
    rw [room.level?_eq inLevel]
    exact touchedOk
  have nothing : ∀ position, Placement.touchedAt grid position none = .ok [] := by
    intro position
    unfold Placement.touchedAt
    cases grid.level? position <;> rfl
  have noFiner : grid.refineBox around region.level 1 = .ok none := by
    unfold Grid.refineBox
    rw [room.alone]
    exact if_pos (Or.inr (Nat.le_refl 1))
  have above : Placement.nextPosition region.level = .ok 1 := by
    rw [room.level_eq inLevel]
    rfl
  refine ⟨region.id :: touched ++ [] ++ [],
    bind_eq_ok_iff.mpr ⟨around, aroundOk, bind_eq_ok_iff.mpr ⟨touched, here, ?_⟩⟩⟩
  dsimp only
  rw [if_pos (room.level_eq inLevel)]
  exact bind_eq_ok_iff.mpr ⟨none, rfl, bind_eq_ok_iff.mpr ⟨[], nothing _,
    bind_eq_ok_iff.mpr ⟨1, above, bind_eq_ok_iff.mpr ⟨none, noFiner,
      bind_eq_ok_iff.mpr ⟨[], nothing 1, rfl⟩⟩⟩⟩⟩

end

variable (room : grid.HasRoom level bound reach)

include room

section

variable
  (onLevel : access.domain = .regionBound ∨ access.domain = .wholeDomain)
  (lower : -reach ≤ access.halo.width.val)
  (upper : access.halo.width.val ≤ reach)

include onLevel lower upper

/-- What can be wrong with a bound region is that the grid lacks it. -/
theorem eq_unknownRegion_of_piecesFor
    {id : RegionId} {error : Error}
    (failed : piecesFor grid unit access id = .error error) :
    error = .unknownRegion unit.name id := by
  cases regionAt : grid.region? id with
  | none =>
      rw [piecesFor, regionAt] at failed
      cases failed
      rfl
  | some region =>
      obtain ⟨member, rfl⟩ := Grid.region?_eq_some_iff.mp regionAt
      obtain ⟨pieces, piecesOk⟩ :
          ∃ pieces, piecesFor grid unit access region.id = .ok pieces :=
        room.exists_piecesFor (room.mem_iff.mp member) onLevel lower upper
      rw [piecesOk] at failed
      cases failed

private theorem targets_ne_arithmetic {item : WorkItem} (fault : Fault) :
    targets grid item unit access ≠ .error (.arithmetic fault) := by
  intro failed
  unfold targets at failed
  split at failed
  · cases failed
  · split at failed
    · exact targetsWithoutRegion_ne_arithmetic fault failed
    · obtain ⟨id, _, onRegion⟩ := exists_error_of_mapM (bind_pure_eq_error_iff.mp failed)
      cases room.eq_unknownRegion_of_piecesFor onLevel lower upper onRegion

theorem exists_targets
    {item : WorkItem}
    (placed : item.regions ≠ [])
    (onGrid : ∀ id ∈ item.regions, ∃ region ∈ level.regions, region.id = id) :
    ∃ found, targets grid item unit access = .ok found := by
  cases notReduction : access.label.isReduction with
  | true =>
      unfold targets
      rw [if_pos notReduction]
      exact ⟨_, rfl⟩
  | false =>
      have each : ∀ id ∈ item.regions.filter access.admits,
          ∃ pieces, piecesFor grid unit access id = .ok pieces := by
        intro id kept
        obtain ⟨region, inLevel, rfl⟩ := onGrid id (List.mem_of_mem_filter kept)
        exact room.exists_piecesFor inLevel onLevel lower upper
      obtain ⟨pieces, piecesOk⟩ := exists_results_of_mapM each
      exact ⟨_, (targets_eq_ok_iff notReduction placed).mpr ⟨pieces, piecesOk, rfl⟩⟩

end

/-- What can be wrong with a placement is that its processes are too many to be
counted. -/
theorem withinHalo_eq_error_iff
    {process : ProcessId} {owners : OwnerTable} {fault : Fault}
    (lower : -reach ≤ width.val)
    (upper : width.val ≤ reach) :
    Placement.withinHalo grid process owners width = .error fault ↔
      Placement.ofOwners process owners = .error fault := by
  unfold Placement.withinHalo
  rw [bind_eq_error_iff]
  refine ⟨fun either => either.resolve_right ?_, Or.inl⟩
  rintro ⟨placement, _, failed⟩
  dsimp only at failed
  obtain ⟨region, kept, onRegion⟩ := exists_error_of_mapM (bind_pure_eq_error_iff.mp failed)
  obtain ⟨reached, reachedOk⟩ :=
    room.exists_reachOf (room.mem_iff.mp (List.mem_of_mem_filter kept)) lower upper
  rw [reachedOk] at onRegion
  cases onRegion

end Grid.HasRoom

private theorem Level.hasRoom
    {bound reach : Nat} {ratio : Vec} {periodic : Periodicity} {regions : List Region}
    {level : Level} {grid : Grid}
    (within : ∀ region ∈ regions, region.box.Within bound)
    (fits : 3 * bound + reach ≤ 2147483647)
    (made : ofRegions 0 ratio periodic regions = .ok level)
    (stacked : Grid.ofLevels [level] = .ok grid) :
    grid.HasRoom level bound reach := by
  exact {
    alone := Grid.ofLevels_eq_ok_iff.mp stacked
    numbered := index_of_ofRegions made
    domain_within := domain_within within (Int.natCast_nonneg bound) made
    within := fun region member => within region ((mem_of_ofRegions made).mp member)
    fits := by omega }

/-- Around regions whose corners lie within a bound, on a grid of one level, no
operation overflows that makes the level, finds its images, the targets of an
access to it, or the neighborhood of a process, as long as three times the bound
and the widest halo together are still a coordinate. The count of processes
may. -/
theorem no_overflow_of_within
    {bound reach : Nat} {ratio : Vec} {periodic : Periodicity} {regions : List Region}
    (within : ∀ region ∈ regions, region.box.Within bound)
    (fits : 3 * bound + reach ≤ 2147483647) :
    (∀ fault, Level.ofRegions 0 ratio periodic regions ≠ .error (.arithmetic fault)) ∧
      ∀ level, Level.ofRegions 0 ratio periodic regions = .ok level →
        (∃ shifts, level.shifts = .ok shifts) ∧
          ∀ grid, Grid.ofLevels [level] = .ok grid →
            (∀ (item : WorkItem) (unit : WorkUnit) (access : Access),
              access.domain = .regionBound ∨ access.domain = .wholeDomain →
                -(reach : Int) ≤ access.halo.width.val → access.halo.width.val ≤ reach →
                  (∀ fault, targets grid item unit access ≠ .error (.arithmetic fault)) ∧
                    (item.regions ≠ [] →
                      (∀ id ∈ item.regions, ∃ region ∈ regions, region.id = id) →
                        ∃ found, targets grid item unit access = .ok found)) ∧
              ∀ (process : ProcessId) (owners : OwnerTable) (width : Coord),
                0 ≤ width.val → width.val ≤ reach → ∀ fault,
                  Placement.withinHalo grid process owners width = .error fault ↔
                    Placement.ofOwners process owners = .error fault := by
  refine ⟨Level.ofRegions_ne_arithmetic within (by omega), fun level made => ⟨?_, ?_⟩⟩
  · have domainWithin := Level.domain_within within (Int.natCast_nonneg bound) made
    obtain ⟨shifts, shiftsOk, _⟩ := Level.exists_shifts_within domainWithin (by omega)
    exact ⟨shifts, shiftsOk⟩
  · intro grid stacked
    have room := Level.hasRoom within fits made stacked
    refine ⟨fun item unit access onLevel lower upper => ⟨?_, fun placed onGrid => ?_⟩, ?_⟩
    · exact room.targets_ne_arithmetic onLevel lower upper
    · refine room.exists_targets onLevel lower upper placed fun id member => ?_
      obtain ⟨region, given, idEq⟩ := onGrid id member
      exact ⟨region, (Level.mem_of_ofRegions made).mpr given, idEq⟩
    · intro process owners width nonneg upper fault
      exact room.withinHalo_eq_error_iff (by omega) upper

/-! ## A cube that fills its bound -/

namespace Cube

/-- The only region reaches eight cells from the origin on every axis, in both
directions. -/
def region : Region := ⟨⟨0⟩, 0, ⟨.splat (.clamp (-8)), .splat Row.eight⟩⟩

/-- The cube, which repeats itself on every axis. -/
def level : Level where
  index := 0
  ratio := .one
  periodic := ⟨true, true, true⟩
  regions := [region]
  domain := region.box
  widest := .clamp 16
  coherent := by constructor <;> decide

def grid : Grid := ⟨[level], by decide⟩

def onCube : WorkItem := ⟨.unit 0, "relax", [⟨0⟩], none, ⟨0⟩, 0, none⟩

/-- An access to the density that reaches so many cells around. -/
def reaching (cells : Int) : Access :=
  { Access.of Row.density with halo := ⟨.cornerAdjacent, .clamp cells⟩ }

end Cube

/-- The widest halo that the bound leaves room for is found, and the
neighborhood that it spans; of a halo wider by one cell the images cannot be
reached. -/
theorem no_overflow_of_within_cube :
    Level.ofRegions 0 .one ⟨true, true, true⟩ [Cube.region] = .ok Cube.level ∧
      Grid.ofLevels [Cube.level] = .ok Cube.grid ∧
        (∃ found, targets Cube.grid Cube.onCube (Row.unit "relax" [⟨0⟩])
          (Cube.reaching 2147483623) = .ok found) ∧
        (∃ placement, Placement.withinHalo Cube.grid ⟨0⟩ [(⟨0⟩, ⟨0⟩)] (.clamp 2147483623) =
          .ok placement) ∧
        targets Cube.grid Cube.onCube (Row.unit "relax" [⟨0⟩]) (Cube.reaching 2147483624) =
          .error (.arithmetic .addOverflow) := by
  have within : ∀ region ∈ [Cube.region], region.box.Within (8 : Nat) := by
    rw [List.forall_mem_singleton]
    exact ⟨fun axis => by cases axis <;> decide, fun axis => by cases axis <;> decide⟩
  have made : Level.ofRegions 0 .one ⟨true, true, true⟩ [Cube.region] = .ok Cube.level := by
    decide +kernel
  have stacked : Grid.ofLevels [Cube.level] = .ok Cube.grid := rfl
  obtain ⟨_, onLevel⟩ := no_overflow_of_within within (Nat.le_refl (3 * 8 + 2147483623))
  obtain ⟨_, onGrid⟩ := onLevel Cube.level made
  obtain ⟨reached, placed⟩ := onGrid Cube.grid stacked
  refine ⟨made, stacked, ?_, ?_, rfl⟩
  · refine (reached Cube.onCube _ (Cube.reaching 2147483623) (Or.inl rfl) ?_ ?_).2 ?_ ?_
    all_goals decide
  · cases found : Placement.withinHalo Cube.grid ⟨0⟩ [(⟨0⟩, ⟨0⟩)] (.clamp 2147483623) with
    | ok placement => exact ⟨placement, rfl⟩
    | error fault => cases (placed _ _ _ (by decide) (by decide) fault).mp found

end MeshTasks
