import MeshTasks.Proofs.Mesh.Reach
import MeshTasks.Proofs.Service

/-!
# Units without problems

Validation looks at each unit by itself and at the loop among them, before
anything is placed. A unit without problems binds both halves of its placement
or none, names regions of the grid only, and stays on the levels of the grid
with its own level and with each step between levels. On a grid whose levels
bear the numbers of their positions this is all that placing items and finding
targets ask for. What is left to fail are arithmetic, values with two producers
and values without any.
-/

namespace MeshTasks

/-- What validation asks of a unit. -/
structure WorkUnit.Sound (grid : Grid) (unit : WorkUnit) : Prop where
  placed : unit.regions.isSome = unit.materials.isSome
  known : ∀ region ∈ unit.namedRegions, (grid.region? region).isSome = true
  level_on_grid : ∀ level, unit.level? grid = some level → level < grid.levels.length
  steps_on_grid : ∀ access ∈ unit.consumed, access.domain.levelOffset ≠ 0 →
    ∀ level ∈ unit.boundLevels grid,
      (grid.levelAt? level access.domain.levelOffset).isSome = true

/-- The errors that validation does not look for. -/
inductive Error.IsLate : Error → Prop
  | arithmetic (fault : Fault) : IsLate (.arithmetic fault)
  | duplicateProducer (label : String) (region : Option RegionId) (material : Option MaterialId)
      (first second : String) : IsLate (.duplicateProducer label region material first second)
  | unresolved (label : String) (binding : Binding) (consumer : String)
      (region : Option RegionId) (material : Option MaterialId) (nearest : Option String) :
      IsLate (.unresolved label binding consumer region material nearest)

namespace WorkUnit

variable {grid : Grid} {unit : WorkUnit}

/-- A unit has no problem exactly when it is sound. -/
private theorem errors_eq_nil_iff : unit.errors grid = [] ↔ unit.Sound grid := by
  have placement :
      unit.placementErrors = [] ↔ unit.regions.isSome = unit.materials.isSome := by
    unfold placementErrors
    cases unit.regions <;> cases unit.materials <;> simp
  have unknown :
      unit.unknownRegionErrors grid = [] ↔
        ∀ region ∈ unit.namedRegions, (grid.region? region).isSome = true := by
    simp [unknownRegionErrors, List.filter_eq_nil_iff, Option.isSome_iff_ne_none]
  have level :
      unit.levelErrors grid = [] ↔
        ∀ level, unit.level? grid = some level → level < grid.levels.length := by
    unfold levelErrors
    cases unit.level? grid <;> simp
  have steps :
      unit.offsetErrors grid = [] ↔
        ∀ access ∈ unit.consumed, access.domain.levelOffset ≠ 0 →
          ∀ level ∈ unit.boundLevels grid,
            (grid.levelAt? level access.domain.levelOffset).isSome = true := by
    unfold offsetErrors
    rw [List.filterMap_eq_nil_iff]
    refine forall₂_congr fun access _ => ?_
    by_cases stays : access.domain.levelOffset = 0
    · simp [stays]
    · rw [if_neg stays, Option.map_eq_none_iff, List.find?_eq_none]
      simp [stays, Option.isSome_iff_ne_none]
  simp only [errors, List.append_eq_nil_iff, placement, unknown, level, steps]
  constructor
  · rintro ⟨⟨⟨placed, known⟩, levelOnGrid⟩, stepsOnGrid⟩
    exact ⟨placed, known, levelOnGrid, stepsOnGrid⟩
  · rintro ⟨placed, known, levelOnGrid, stepsOnGrid⟩
    exact ⟨⟨⟨placed, known⟩, levelOnGrid⟩, stepsOnGrid⟩

namespace Sound

/-- Sorting a unit does not change whether it is sound. -/
private theorem seated (sound : unit.Sound grid) (seat phase : Option Nat) :
    { unit with seat := seat, phase := phase }.Sound grid :=
  ⟨sound.placed, sound.known, sound.level_on_grid, sound.steps_on_grid⟩

private theorem isSome_region?
    (sound : unit.Sound grid)
    {id : RegionId}
    (bound : id ∈ unit.boundRegions) :
    (grid.region? id).isSome = true :=
  sound.known id (List.mem_append_left _ bound)

private theorem placeable (sound : unit.Sound grid) : unit.Placeable grid :=
  ⟨sound.placed, fun _ bound => sound.isSome_region? bound⟩

/-- From each region that the unit is bound to, each value it consumes lies on a
level of the grid. -/
private theorem exists_level
    (sound : unit.Sound grid)
    (indexed : grid.Indexed)
    {access : Access} {id : RegionId} {region : Region}
    (consumed : access ∈ unit.consumed)
    (bound : id ∈ unit.boundRegions)
    (found : grid.region? id = some region) :
    ∃ level, grid.levelAt? region.level access.domain.levelOffset = some level := by
  by_cases stays : access.domain.levelOffset = 0
  · obtain ⟨level, levelAt, _⟩ := Grid.exists_level_of_region? indexed found
    exact ⟨level, by rw [stays, Grid.levelAt?_zero, levelAt]⟩
  · have boundLevel : region.level ∈ unit.boundLevels grid :=
      List.mem_filterMap.mpr ⟨id, bound, by rw [found, Option.map_some]⟩
    exact Option.isSome_iff_exists.mp (sound.steps_on_grid access consumed stays _ boundLevel)

end Sound

end WorkUnit

/-- A list of units has no problem exactly when its units are sound and can be
put in order. -/
theorem validationErrors_eq_nil_iff {grid : Grid} {units : List WorkUnit} :
    validationErrors grid units = [] ↔
      (∀ unit ∈ units, unit.Sound grid) ∧ ∃ order, schedule units = .ok order := by
  have noLoop : loopErrors units = [] ↔ ∃ order, schedule units = .ok order := by
    unfold loopErrors
    cases schedule units <;> simp
  simp only [validationErrors, List.append_eq_nil_iff, List.flatMap_eq_nil_iff,
    WorkUnit.errors_eq_nil_iff, noLoop]

private theorem sound_of_sortUnits
    {grid : Grid} {units sorted : List WorkUnit}
    (sound : ∀ unit ∈ units, unit.Sound grid)
    (sortedOk : sortUnits units = .ok sorted) :
    ∀ unit ∈ sorted, unit.Sound grid := by
  intro unit member
  obtain ⟨seat, unitAt⟩ := List.mem_iff_getElem?.mp member
  obtain ⟨original, originalMember, phase, rfl⟩ := (sortUnits_sorted sortedOk).seated unitAt
  exact (sound original originalMember).seated (some seat) phase

/-! ## What can still fail -/

private theorem isLate_of_orArithmetic
    {α : Type} {outcome : Except Fault α} {error : Error}
    (failed : orArithmetic outcome = .error error) :
    error.IsLate := by
  cases outcome with
  | error fault =>
      cases failed
      exact .arithmetic fault
  | ok value => cases failed

section Placing

variable {grid : Grid} {settings : Settings} {placement : Placement}

private theorem isLate_of_blueprint
    {units : List WorkUnit} {error : Error}
    (sound : ∀ unit ∈ units, unit.Sound grid)
    (failed : blueprint grid settings placement units = .error error) :
    error.IsLate := by
  cases outcome : instantiateAll grid settings placement units with
  | error itemsError =>
      obtain ⟨_, fault, _, rfl⟩ :=
        instantiateAll_eq_error (fun unit member => (sound unit member).placeable) outcome
      rw [blueprint, outcome] at failed
      cases failed
      exact .arithmetic fault
  | ok items =>
      obtain ⟨earlier, _, later, _, _, rfl⟩ := exists_clash_of_blueprint outcome failed
      exact .duplicateProducer _ _ _ _ _

end Placing

section Targets

variable {grid : Grid} {unit : WorkUnit} {access : Access} {error : Error}

private theorem isLate_of_piecesFor
    {id : RegionId}
    (sound : unit.Sound grid)
    (indexed : grid.Indexed)
    (consumed : access ∈ unit.consumed)
    (bound : id ∈ unit.boundRegions)
    (failed : piecesFor grid unit access id = .error error) :
    error.IsLate := by
  obtain ⟨region, found⟩ := Option.isSome_iff_exists.mp (sound.isSome_region? bound)
  obtain ⟨level, levelAt⟩ := sound.exists_level indexed consumed bound found
  simp only [piecesFor, found, piecesOf, levelAt] at failed
  split at failed
  · cases failed
  · split at failed
    · cases failed
    · exact isLate_of_orArithmetic failed

private theorem targetsWithoutRegion_ne_error
    (sound : unit.Sound grid)
    (nonempty : grid.levels ≠ []) :
    targetsWithoutRegion grid unit access ≠ .error error := by
  have onGrid : (unit.level? grid).getD 0 < grid.levels.length := by
    cases levelEq : unit.level? grid with
    | none => exact List.length_pos_of_ne_nil nonempty
    | some level => exact sound.level_on_grid level levelEq
  have levelAt := List.getElem?_eq_getElem onGrid
  intro failed
  simp only [targetsWithoutRegion, Grid.level?, levelAt] at failed
  split at failed
  · cases failed
  · split at failed <;> cases failed

private theorem isLate_of_targets
    {item : WorkItem}
    (sound : unit.Sound grid)
    (nonempty : grid.levels ≠ [])
    (indexed : grid.Indexed)
    (consumed : access ∈ unit.consumed)
    (bound : item.regions ⊆ unit.boundRegions)
    (failed : targets grid item unit access = .error error) :
    error.IsLate := by
  unfold targets at failed
  split at failed
  · cases failed
  · split at failed
    · exact absurd failed (targetsWithoutRegion_ne_error sound nonempty)
    · obtain ⟨id, member, pieceFailed⟩ := exists_error_of_mapM (bind_pure_eq_error_iff.mp failed)
      have inItem := List.mem_of_mem_filter member
      exact isLate_of_piecesFor sound indexed consumed (bound inItem) pieceFailed

end Targets

/-- Resolving what sound units consume fails late only. -/
private theorem isLate_of_resolve
    {resolver : Resolver} {settings : Settings} {placement : Placement} {items : List WorkItem}
    {halted : Halted Resolution}
    (sound : ∀ unit ∈ resolver.units, unit.Sound resolver.grid)
    (nonempty : resolver.grid.levels ≠ [])
    (indexed : resolver.grid.Indexed)
    (itemsOk : instantiateAll resolver.grid settings placement resolver.units = .ok items)
    (failed : resolver.resolve (.ofItems items) = .error halted) :
    halted.error.IsLate := by
  cases Resolver.stops_of_resolve failed with
  | @no_targets id item unit access error reached itemAt unitOf consumed targetsFailed =>
      obtain ⟨position, owner, placed, ownerAt, placedOk, inPlaced⟩ :=
        exists_unit_of_mem_items itemsOk (List.mem_of_getElem? itemAt)
      obtain ⟨bound, materials, process, rfl, within⟩ := mem_instantiate placedOk inPlaced
      have sameUnit : owner = unit := Option.some.inj (ownerAt.symm.trans unitOf)
      rw [sameUnit] at within
      have unitMember : unit ∈ resolver.units := List.mem_of_getElem? (sameUnit ▸ ownerAt)
      exact isLate_of_targets (sound unit unitMember) nonempty indexed consumed within targetsFailed
  | unserved => exact .unresolved _ _ _ _ _ _

namespace Compiler

variable {compiler : Compiler} {units : List WorkUnit}

private theorem isLate_of_compile
    {error : Error}
    (nonempty : compiler.grid.levels ≠ [])
    (indexed : compiler.grid.Indexed)
    (checked : compiler.settings.check = .ok ())
    (noProblem : validationErrors compiler.grid units = [])
    (failed : compiler.compile units = .error error) :
    error.IsLate := by
  obtain ⟨sound, order, scheduled⟩ := validationErrors_eq_nil_iff.mp noProblem
  have valid : validate compiler.grid units = .ok () := by
    rw [validate, noProblem]
  have sortedOk : sortUnits units = .ok (seatUnits units order) :=
    bind_eq_ok_iff.mpr ⟨order, scheduled, rfl⟩
  have sortedSound := sound_of_sortUnits sound sortedOk
  unfold compile at failed
  rw [checked, valid, sortedOk] at failed
  have linked : compiler.link (seatUnits units order) = .error error := failed
  unfold link at linked
  rcases bind_eq_error_iff.mp linked with buildFailed | ⟨built, builtOk, resolveFailed⟩
  · exact isLate_of_blueprint sortedSound buildFailed
  · obtain ⟨items, itemsOk, rfl, _⟩ := blueprint_eq_ok_iff.mp builtOk
    dsimp only at resolveFailed
    split at resolveFailed
    · rename_i halted halts
      cases resolveFailed
      exact isLate_of_resolve sortedSound nonempty indexed itemsOk halts
    · cases resolveFailed

/-- Units without problems compile, or show a value that has two producers or
none, as long as arithmetic stays in bounds. -/
theorem compile_of_noProblem
    (nonempty : compiler.grid.levels ≠ [])
    (indexed : compiler.grid.Indexed)
    (checked : compiler.settings.check = .ok ())
    (noProblem : validationErrors compiler.grid units = [])
    (noFault : ∀ fault, compiler.compile units ≠ .error (.arithmetic fault)) :
    (∃ compiled, compiler.compile units = .ok compiled) ∨
      (∃ label region material first second,
        compiler.compile units = .error (.duplicateProducer label region material first second)) ∨
        ∃ label binding consumer region material nearest,
          compiler.compile units =
            .error (.unresolved label binding consumer region material nearest) := by
  cases outcome : compiler.compile units with
  | ok compiled => exact Or.inl ⟨compiled, rfl⟩
  | error error =>
      cases isLate_of_compile nonempty indexed checked noProblem outcome with
      | arithmetic fault => exact absurd outcome (noFault fault)
      | duplicateProducer label region material first second =>
          exact Or.inr (Or.inl ⟨label, region, material, first, second, rfl⟩)
      | unresolved label binding consumer region material nearest =>
          exact Or.inr (Or.inr ⟨label, binding, consumer, region, material, nearest, rfl⟩)

end Compiler

theorem compile_of_noProblem_row :
    Row.grid.levels ≠ [] ∧ Row.grid.Indexed ∧ Settings.standard.check = .ok () ∧
      validationErrors Row.grid Row.readOnly = [] ∧
        (∀ fault, Row.compiler.compile Row.readOnly ≠ .error (.arithmetic fault)) ∧
          ∃ label binding consumer region material nearest,
            Row.compiler.compile Row.readOnly =
              .error (.unresolved label binding consumer region material nearest) := by
  have nonempty : Row.grid.levels ≠ [] := List.cons_ne_nil _ _
  have indexed : Row.grid.Indexed := Grid.indexed_iff.mpr rfl
  have noProblem : validationErrors Row.grid Row.readOnly = [] := rfl
  have noFault : ∀ fault, Row.compiler.compile Row.readOnly ≠ .error (.arithmetic fault) := nofun
  refine ⟨nonempty, indexed, rfl, noProblem, noFault, ?_⟩
  rcases Row.compiler.compile_of_noProblem nonempty indexed rfl noProblem noFault with
    ⟨compiled, compiledOk⟩ | ⟨_, _, _, _, _, duplicate⟩ | unresolved
  · cases compiledOk
  · cases duplicate
  · exact unresolved

end MeshTasks
