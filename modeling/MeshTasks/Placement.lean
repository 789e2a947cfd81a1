import MeshTasks.Mesh.Grid

/-!
# Placement

A placement says which process owns which region, which process is compiling,
and which regions lie in its neighborhood. Each process builds only the part of
the graph around its own regions; the halo neighborhood holds what those regions
can reach.
-/

namespace MeshTasks

/-- Owners of regions, at most one entry for each region. -/
abbrev OwnerTable := List (RegionId × ProcessId)

namespace OwnerTable

/-- Enters an owner; a region that has one already gets the new one. -/
def put : OwnerTable → RegionId → ProcessId → OwnerTable
  | [], region, process => [(region, process)]
  | (other, owner) :: rest, region, process =>
      if other = region then
        (region, process) :: rest
      else
        (other, owner) :: put rest region process

/-- The table of some pairs; of two pairs for one region the later counts. -/
def ofPairs (pairs : List (RegionId × ProcessId)) : OwnerTable :=
  pairs.foldl (fun table pair => put table pair.1 pair.2) []

end OwnerTable

structure Placement where
  localProcess : ProcessId
  processCount : Nat
  owners : OwnerTable
  neighborhood : RegionSet

namespace Placement

/-- One more than the number of a process, which must again fit in thirty-two
bits. -/
def countThrough (process : ProcessId) : Except Fault Nat :=
  if process.number.toNat + 1 < 4294967296 then
    .ok (process.number.toNat + 1)
  else
    .error .addOverflow

/-- The placement of an owner table; its neighborhood is every region of the
table, and there are as many processes as its numbers call for. -/
def ofOwners (localProcess : ProcessId) (owners : OwnerTable) : Except Fault Placement := do
  let counts ← (owners.map Prod.snd ++ [localProcess]).mapM countThrough
  return {
    localProcess
    processCount := counts.foldl max 1
    owners
    neighborhood := .ofList (owners.map Prod.fst) }

/-- Process 0 owns every region of a grid. -/
def serial (grid : Grid) : Except Fault Placement :=
  ofOwners ⟨0⟩ (.ofPairs (grid.regions.map fun region => (region.id, ⟨0⟩)))

/-- The regions of a level that a box or one of its periodic images touches. -/
def touchedOn (level : Level) (box : Box) : Except Fault (List RegionId) := do
  let shifts ← level.shifts
  let images ← shifts.mapM fun shift => do
    let back ← shift.neg
    box.translate back
  return (box :: images).flatMap fun image => (level.selectOverlapping image).map Region.id

/-- The regions that a box touches on the level at a position; none without such
a level or without such a box. -/
def touchedAt (grid : Grid) (position : Nat) (box : Option Box) :
    Except Fault (List RegionId) :=
  match grid.level? position, box with
  | some level, some box => touchedOn level box
  | _, _ => .ok []

/-- The position after a level, which must fit in sixty-four bits. -/
def nextPosition (position : Nat) : Except Fault Nat :=
  if position + 1 < 18446744073709551616 then .ok (position + 1) else .error .addOverflow

/-- A region together with all regions within a width of it, on its own level
and on the levels next to it. -/
def reachOf (grid : Grid) (width : Coord) (region : Region) : Except Fault (List RegionId) := do
  let reach ← region.box.dilate width
  let level ← touchedAt grid region.level (some reach)
  let coarseReach ←
    if region.level = 0 then
      .ok none
    else
      grid.coarsenBox reach region.level (region.level - 1)
  let coarser ← touchedAt grid (region.level - 1) coarseReach
  let above ← nextPosition region.level
  let fineReach ← grid.refineBox reach region.level above
  let finer ← touchedAt grid above fineReach
  return region.id :: level ++ coarser ++ finer

/-- The placement of an owner table whose neighborhood is the local regions and
everything within a width of them. -/
def withinHalo (grid : Grid) (localProcess : ProcessId) (owners : OwnerTable) (width : Coord) :
    Except Fault Placement := do
  let placement ← ofOwners localProcess owners
  let localRegions := grid.regions.filter fun region =>
    decide (owners.lookup region.id = some localProcess)
  let reached ← localRegions.mapM (reachOf grid width)
  return { placement with neighborhood := .ofList reached.flatten }

def withNeighborhood (placement : Placement) (regions : List RegionId) : Placement :=
  { placement with neighborhood := .ofList regions }

/-- Raises the number of processes; it never falls. -/
def withProcessCount (placement : Placement) (count : Nat) : Placement :=
  { placement with processCount := max count placement.processCount }

def owner? (placement : Placement) (region : RegionId) : Option ProcessId :=
  placement.owners.lookup region

def owns (placement : Placement) (process : ProcessId) (region : RegionId) : Bool :=
  decide (placement.owner? region = some process)

def isNear (placement : Placement) (region : RegionId) : Bool :=
  placement.neighborhood.contains region

/-- The members of a set that lie in the neighborhood. -/
def nearby (placement : Placement) (regions : RegionSet) : RegionSet :=
  regions.filter placement.isNear

/-- The owners of the neighborhood and the local process. -/
def neighborhoodProcesses (placement : Placement) : OrderedSet ProcessId :=
  .ofList (placement.neighborhood.toList.filterMap placement.owner? ++ [placement.localProcess])

/-- The process that runs an item on some regions: the owner of the first, or
else the local process. -/
def assign (placement : Placement) (regions : List RegionId) : ProcessId :=
  (regions.head?.bind placement.owner?).getD placement.localProcess

end Placement

end MeshTasks
