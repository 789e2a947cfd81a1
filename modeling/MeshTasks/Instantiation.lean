import MeshTasks.Placement
import MeshTasks.Producers
import MeshTasks.Settings.Basic
import MeshTasks.WorkUnit

/-!
# Instantiation

Sorted units become items: on each near region, on each neighboring process or
on each output group, once for each subset of materials; a unit that is global
becomes one item. The producer index is then recorded item by item.
-/

namespace MeshTasks

/-- A graph of items with the index of what they produce. -/
structure Blueprint where
  graph : TaskGraph
  index : ProducerIndex

/-- The item of the unit at a position. Without a process of its own it runs
where its regions are assigned. -/
def itemOf (placement : Placement) (position : Nat) (unit : WorkUnit) (regions : List RegionId)
    (materials : Option MaterialSubset) (process : Option ProcessId) : WorkItem where
  origin := .unit position
  name := unit.name
  regions := regions
  materials := materials
  process := process.getD (placement.assign regions)
  order := unit.seat.getD position
  phase := unit.phase

/-- The number of processes in an output group. -/
def groupSize (settings : Settings) : Nat :=
  max 1 settings.outputGroupSize.toNat

/-- Every output group must end at a number of thirty-two bits; the last one
ends highest. -/
def checkOutputGroups (settings : Settings) (placement : Placement) : Except Fault Unit :=
  let size := groupSize settings
  let lastLeader := (placement.processCount - 1) / size * size
  if 0 < placement.processCount ∧ 4294967296 ≤ lastLeader + size then
    .error .addOverflow
  else
    .ok ()

/-- The processes of the neighborhood that lead an output group. Groups are
blocks of consecutive processes, led by the lowest. -/
def outputLeaders (settings : Settings) (placement : Placement) : List ProcessId :=
  placement.neighborhoodProcesses.toList.filter fun process =>
    decide (process.number.toNat % groupSize settings = 0) &&
      decide (process.number.toNat < placement.processCount)

/-- Whether a process belongs to the output group of a leader. -/
def isInGroup (settings : Settings) (placement : Placement) (leader process : ProcessId) : Bool :=
  decide (leader.number.toNat ≤ process.number.toNat) &&
    decide (process.number.toNat <
      min (leader.number.toNat + groupSize settings) placement.processCount)

/-- The regions of a set whose owner passes a test. -/
def regionsOwned (placement : Placement) (regions : RegionSet) (test : ProcessId → Bool) :
    List RegionId :=
  regions.toList.filter fun region =>
    match placement.owner? region with
    | none => false
    | some owner => test owner

/-- The items of a unit that is bound to regions and materials. -/
def placedItems (settings : Settings) (placement : Placement) (position : Nat) (unit : WorkUnit)
    (regions : RegionSet) (subsets : List MaterialSubset) : Except Fault (List WorkItem) :=
  let itemsOn (bound : List RegionId) (process : Option ProcessId) : List WorkItem :=
    subsets.map fun subset => itemOf placement position unit bound (some subset) process
  match unit.policy with
  | .perRegion =>
      .ok <| (placement.nearby regions).toList.flatMap fun region => itemsOn [region] none
  | .oncePerProcess =>
      .ok <| placement.neighborhoodProcesses.toList.flatMap fun process =>
        itemsOn (regionsOwned placement regions fun owner => decide (owner = process))
          (some process)
  | .outputOnce => do
      checkOutputGroups settings placement
      return (outputLeaders settings placement).flatMap fun leader =>
        let owned := regionsOwned placement regions (isInGroup settings placement leader)
        if owned.isEmpty then [] else itemsOn owned (some leader)
  | .synchronizing => .ok [itemOf placement position unit [] none none]

/-- The items of the unit at a position. -/
def instantiate (grid : Grid) (settings : Settings) (placement : Placement) (position : Nat)
    (unit : WorkUnit) : Except Error (List WorkItem) :=
  match unit.regions, unit.materials with
  | some _, none => .error (.missingPlacement unit.name .regions)
  | none, some _ => .error (.missingPlacement unit.name .materials)
  | none, none => .ok [itemOf placement position unit [] none none]
  | some regions, some subsets =>
      match regions.toList.find? fun region => (grid.region? region).isNone with
      | some region => .error (.unknownRegion unit.name region)
      | none => orArithmetic (placedItems settings placement position unit regions subsets)

/-- The items of all units, in the order of the units. -/
def instantiateAll (grid : Grid) (settings : Settings) (placement : Placement)
    (units : List WorkUnit) : Except Error (List WorkItem) := do
  let items ← units.zipIdx.mapM fun (unit, position) =>
    instantiate grid settings placement position unit
  return items.flatten

/-- Whether an item of a unit produces the value of an access. A process that
owns no region of a bound unit takes part in what concerns the whole domain and
produces nothing else. -/
def takesPart (unit : WorkUnit) (item : WorkItem) (access : Access) : Bool :=
  unit.isGlobal || !item.regions.isEmpty || access.isDomainWide

/-- The accesses by which the items of a graph produce values, item by item. -/
def productions (units : List WorkUnit) (graph : TaskGraph) : List (Nat × Access) :=
  graph.unitItems.flatMap fun id =>
    match graph.item? id with
    | none => []
    | some item =>
        match item.unit?.bind (units[·]?) with
        | none => []
        | some unit =>
            (unit.produced.filter (takesPart unit item)).map fun access => (id, access)

/-- Records what the items of a graph produce. -/
def recordAll (units : List WorkUnit) (graph : TaskGraph) :
    Except (Halted ProducerIndex) ProducerIndex :=
  (productions units graph).foldlM
    (fun (index : ProducerIndex) (id, access) => index.record graph id access) .empty

/-- The items of some units and the index of what they produce. -/
def blueprint (grid : Grid) (settings : Settings) (placement : Placement)
    (units : List WorkUnit) : Except Error Blueprint := do
  let items ← instantiateAll grid settings placement units
  let graph : TaskGraph := ⟨items, []⟩
  match recordAll units graph with
  | .error halted => .error halted.error
  | .ok index => .ok ⟨graph, index⟩

end MeshTasks
