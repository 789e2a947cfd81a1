import MeshTasks.Schedule.Basic

/-!
# Validation

Compiling stops at the first problem. Validation goes through all units and
lists every problem that shows without placing or resolving anything, the loop
among the units last.
-/

namespace MeshTasks

namespace WorkUnit

/-- A unit must bind regions and materials or neither. -/
def placementErrors (unit : WorkUnit) : List Error :=
  match unit.regions, unit.materials with
  | some _, none => [.missingPlacement unit.name .regions]
  | none, some _ => [.missingPlacement unit.name .materials]
  | _, _ => []

/-- Every region that the unit names: those it is bound to, then those of its
accesses. -/
def namedRegions (unit : WorkUnit) : List RegionId :=
  unit.boundRegions ++ (unit.consumed ++ unit.produced).flatMap fun access =>
    match access.regions with
    | none => []
    | some regions => regions.toList

def unknownRegionErrors (grid : Grid) (unit : WorkUnit) : List Error :=
  (unit.namedRegions.filter fun region => (grid.region? region).isNone).map fun region =>
    .unknownRegion unit.name region

def levelErrors (grid : Grid) (unit : WorkUnit) : List Error :=
  match unit.level? grid with
  | none => []
  | some level =>
      if grid.levels.length ≤ level then [.levelOutOfRange unit.name level 0] else []

/-- The levels of the bound regions that are on the grid. -/
def boundLevels (grid : Grid) (unit : WorkUnit) : List Nat :=
  unit.boundRegions.filterMap fun region => (grid.region? region).map Region.level

/-- Each consumed access that steps between levels must stay on the grid from
every bound region; the first level from which it does not is reported. -/
def offsetErrors (grid : Grid) (unit : WorkUnit) : List Error :=
  unit.consumed.filterMap fun access =>
    let offset := access.domain.levelOffset
    if offset = 0 then
      none
    else
      ((unit.boundLevels grid).find? fun level => (grid.levelAt? level offset).isNone).map
        fun level => .levelOutOfRange unit.name level offset

/-- Every problem of one unit. -/
def errors (grid : Grid) (unit : WorkUnit) : List Error :=
  unit.placementErrors ++ unit.unknownRegionErrors grid ++ unit.levelErrors grid ++
    unit.offsetErrors grid

end WorkUnit

/-- The loop among the units, if there is one. -/
def loopErrors (units : List WorkUnit) : List Error :=
  match schedule units with
  | .error error => [error]
  | .ok _ => []

/-- Every problem of a list of units on a grid. -/
def validationErrors (grid : Grid) (units : List WorkUnit) : List Error :=
  units.flatMap (WorkUnit.errors grid) ++ loopErrors units

/-- Fails with the first problem. -/
def validate (grid : Grid) (units : List WorkUnit) : Except Error Unit :=
  match validationErrors grid units with
  | [] => .ok ()
  | error :: _ => .error error

end MeshTasks
