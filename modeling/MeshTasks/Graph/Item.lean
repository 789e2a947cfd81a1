import MeshTasks.Id

/-!
# Work items

An item is a unit placed on certain regions and materials and given to a
process. Values of an earlier generation come from send items, which belong to
no unit.
-/

namespace MeshTasks

/-- Where an item comes from. -/
inductive Origin where
  /-- The unit at a position of the sorted list. -/
  | unit (position : Nat)
  /-- Values that were there before the first execution or are kept from the
  last one. -/
  | priorGeneration
deriving DecidableEq

structure WorkItem where
  origin : Origin
  name : String
  regions : List RegionId
  materials : Option MaterialSubset
  process : ProcessId
  order : Nat
  phase : Option Nat
deriving DecidableEq

namespace WorkItem

/-- The position of the unit that the item belongs to. -/
def unit? (item : WorkItem) : Option Nat :=
  match item.origin with
  | .unit position => some position
  | .priorGeneration => none

def isSend (item : WorkItem) : Bool :=
  decide (item.origin = .priorGeneration)

/-- Name, regions, materials, process and order of an item. -/
def render (item : WorkItem) : String :=
  let regions :=
    if item.regions.isEmpty then ""
    else "@" ++ ",".intercalate (item.regions.map RegionId.render)
  let materials :=
    match item.materials with
    | none => ""
    | some subset => " m[" ++ ",".intercalate (subset.toList.map MaterialId.render) ++ "]"
  item.name ++ regions ++ materials ++ " on " ++ item.process.render ++ " (order " ++
    toString item.order ++ ")"

end WorkItem

end MeshTasks
