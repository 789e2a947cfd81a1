import MeshTasks.Access.Basic
import MeshTasks.Mesh.Grid

/-!
# Work units

A work unit is an operation that can be scheduled: what it reads, modifies and
computes, where it runs, and how it is spread over regions and processes.
Sorting gives a unit its seat, and a phase to each unit that synchronizes all
processes.
-/

namespace MeshTasks

/-- How a unit is spread. -/
inductive Policy where
  /-- One item for each region and each subset of materials. -/
  | perRegion
  /-- One item for each process of the neighborhood. -/
  | oncePerProcess
  /-- One item for each group of processes that write output together. -/
  | outputOnce
  /-- One item, ordered by phase across all processes. -/
  | synchronizing
deriving DecidableEq

structure WorkUnit where
  name : String
  policy : Policy
  requires : List Access
  modifies : List Access
  computes : List Access
  regions : Option RegionSet
  /-- The subsets of materials; each gets items of its own. -/
  materials : Option (List MaterialSubset)
  /-- The level of a unit that is bound to no region. -/
  pinned : Option UInt64
  stores : StoreMap
  /-- The place in the sorted list. -/
  seat : Option Nat
  /-- The number of a synchronizing unit among its kind in the sorted list. -/
  phase : Option Nat
deriving DecidableEq

namespace WorkUnit

/-- A unit that touches nothing and is placed nowhere. -/
def named (name : String) (policy : Policy) : WorkUnit where
  name := name
  policy := policy
  requires := []
  modifies := []
  computes := []
  regions := none
  materials := none
  pinned := none
  stores := .standard
  seat := none
  phase := none

/-- The unit with one more read. -/
def requiring (unit : WorkUnit) (access : Access) : WorkUnit :=
  { unit with requires := unit.requires ++ [{ access with mode := .requires }] }

/-- The unit with one more modification. -/
def modifying (unit : WorkUnit) (access : Access) : WorkUnit :=
  { unit with modifies := unit.modifies ++ [{ access with mode := .modifies }] }

/-- The unit with one more result. Results always are new values. -/
def computing (unit : WorkUnit) (access : Access) : WorkUnit :=
  { unit with computes := unit.computes ++ [{ access with mode := .computes, binding := .new }] }

def onRegions (unit : WorkUnit) (regions : RegionSet) : WorkUnit :=
  { unit with regions := some regions }

def withMaterials (unit : WorkUnit) (materials : List MaterialSubset) : WorkUnit :=
  { unit with materials := some materials }

def onLevel (unit : WorkUnit) (level : UInt64) : WorkUnit :=
  { unit with pinned := some level }

def isSynchronizing (unit : WorkUnit) : Bool :=
  decide (unit.policy = .synchronizing)

/-- Whether the unit becomes one item that is tied to no region. -/
def isGlobal (unit : WorkUnit) : Bool :=
  unit.regions.isNone || unit.isSynchronizing

/-- The accesses that need a value: reads, then modifications. -/
def consumed (unit : WorkUnit) : List Access :=
  unit.requires ++ unit.modifies

/-- The accesses that leave a value: results, then modifications. -/
def produced (unit : WorkUnit) : List Access :=
  unit.computes ++ unit.modifies

/-- The bound regions in ascending order. -/
def boundRegions (unit : WorkUnit) : List RegionId :=
  match unit.regions with
  | none => []
  | some regions => regions.toList

/-- Whether a binding leads to the store that the unit writes, so that the value
must come from a unit of the same list. -/
def isNewLike (unit : WorkUnit) (binding : Binding) : Bool :=
  unit.stores.isNewLike binding

/-- The pinned level, or else the level of the first bound region. -/
def level? (unit : WorkUnit) (grid : Grid) : Option Nat :=
  match unit.pinned with
  | some level => some level.toNat
  | none => do
      let first ← unit.boundRegions.head?
      let region ← grid.region? first
      return region.level

/-- Whether the unit computes a label. -/
def computesLabel (unit : WorkUnit) (label : Label) : Bool :=
  unit.computes.any fun access => decide (access.label = label)

/-- Whether the unit computes or modifies a label. -/
def producesLabel (unit : WorkUnit) (label : Label) : Bool :=
  unit.produced.any fun access => decide (access.label = label)

end WorkUnit

end MeshTasks
