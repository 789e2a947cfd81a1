import MeshTasks.WorkUnit

/-!
# Rebinding

Before a list of units runs again, its units get new store maps. In an
intermediate computation the finer levels step several times while the coarsest
active level steps once; a unit finer than that level then reads new coarse
values from the store that it writes itself.
-/

namespace MeshTasks

namespace WorkUnit

/-- The level at which a unit is active. A unit that runs once on each process
spans every level and so counts for the coarsest; output and synchronization
count for none. -/
def activeLevel? (grid : Grid) (unit : WorkUnit) : Option Nat :=
  match unit.policy with
  | .oncePerProcess => some 0
  | .perRegion => unit.level? grid
  | .outputOnce => none
  | .synchronizing => none

/-- Whether the unit is on a level finer than the given one. -/
def isFinerThan (grid : Grid) (unit : WorkUnit) (coarsest : Option Nat) : Bool :=
  match coarsest, unit.level? grid with
  | some coarsest, some level => decide (coarsest < level)
  | _, _ => false

/-- The unit with the stores of a map; below the coarsest active level, new
coarse values are those of the new store. -/
def rebind (grid : Grid) (coarsest : Option Nat) (map : StoreMap) (unit : WorkUnit) : WorkUnit :=
  { unit with
    stores := if unit.isFinerThan grid coarsest then map.set .coarseNew map.new else map }

end WorkUnit

/-- The coarsest level at which some unit is active. -/
def coarsestActiveLevel? (grid : Grid) (units : List WorkUnit) : Option Nat :=
  (units.filterMap (WorkUnit.activeLevel? grid)).min?

/-- The units with the stores of a map. -/
def rebind (grid : Grid) (intermediate : Bool) (units : List WorkUnit) (map : StoreMap) :
    List WorkUnit :=
  let coarsest := if intermediate then coarsestActiveLevel? grid units else none
  units.map (WorkUnit.rebind grid coarsest map)

/-- Whether rebinding gives some unit other stores than it has. -/
def rebindChanges (grid : Grid) (intermediate : Bool) (units : List WorkUnit) (map : StoreMap) :
    Bool :=
  let coarsest := if intermediate then coarsestActiveLevel? grid units else none
  units.any fun unit => decide ((unit.rebind grid coarsest map).stores ≠ unit.stores)

end MeshTasks
