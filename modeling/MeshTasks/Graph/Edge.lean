import MeshTasks.Space.Box
import MeshTasks.Access.Basic

/-!
# Edges

An edge leads from the item that produces a value to an item that must wait for
it. The transfer says which value this is and when the edge applies; the
materials it concerns are listed beside it, so that several materials of one
transfer share an edge.
-/

namespace MeshTasks

/-- In which executions of the graph an edge applies. -/
inductive Condition where
  | always
  | firstIterationOnly
  | subsequentIterationsOnly
deriving DecidableEq

/-- Whether an edge carries data, or keeps a modification behind a read. -/
inductive EdgeKind where
  | data
  | modifyOrdering
deriving DecidableEq

structure Transfer where
  label : Label
  binding : Binding
  /-- The supplying region; a value of the whole domain has none. -/
  region : Option RegionId
  /-- The cells to transfer, as the supplying region counts them. -/
  box : Option Box
  /-- The offset to the periodic image that the consumer sees. -/
  offset : Vec
  condition : Condition
  kind : EdgeKind
deriving DecidableEq

structure Edge where
  producer : Nat
  consumer : Nat
  transfer : Transfer
  materials : List MaterialId
deriving DecidableEq

namespace Edge

/-- Whether the edge counts in the first execution. -/
def countsFirst (edge : Edge) : Bool :=
  decide (edge.transfer.condition ≠ .subsequentIterationsOnly)

/-- Whether two edges join the same items for the same transfer. -/
def isParallel (left right : Edge) : Bool :=
  decide (left.producer = right.producer) && decide (left.consumer = right.consumer) &&
    decide (left.transfer = right.transfer)

/-- The materials of a list with those of another that it lacks, in ascending
order. -/
def mergeMaterials (held added : List MaterialId) : List MaterialId :=
  let joined := added.foldl
    (fun (all : List MaterialId) material =>
      if material ∈ all then all else all ++ [material])
    held
  joined.mergeSort fun left right => decide (rank left ≤ rank right)

/-- Adds an edge to a list, or its materials to the edge that is parallel to it.
The number is the place of the edge in the resulting list. -/
def absorb (edge : Edge) : List Edge → List Edge × Nat
  | [] => ([edge], 0)
  | held :: rest =>
      if held.isParallel edge then
        ({ held with materials := mergeMaterials held.materials edge.materials } :: rest, 0)
      else
        let (later, place) := absorb edge rest
        (held :: later, place + 1)

end Edge

end MeshTasks
