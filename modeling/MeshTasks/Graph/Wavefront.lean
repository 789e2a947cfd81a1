import MeshTasks.Graph.Basic

/-!
# Wavefronts

The first execution can run its items in wavefronts: an item joins the first
wavefront before which all the items it waits for have run. Items that wait for
a loop never run.
-/

namespace MeshTasks

namespace TaskGraph

/-- The items that an item waits for in the first execution. -/
def waitsFor (graph : TaskGraph) (id : Nat) : List Nat :=
  (graph.edges.filter fun edge => decide (edge.consumer = id) && edge.countsFirst).map
    Edge.producer

/-- The items that have not run, while everything they wait for has. -/
def nextWavefront (graph : TaskGraph) (done : List Nat) : List Nat :=
  (List.range graph.items.length).filter fun id =>
    decide (id ∉ done) && (graph.waitsFor id).all fun producer => decide (producer ∈ done)

/-- At most so many wavefronts after some items have run, up to the first empty
one. -/
def wavefrontsAfter (graph : TaskGraph) : Nat → List Nat → List (List Nat)
  | 0, _ => []
  | fuel + 1, done =>
      let front := graph.nextWavefront done
      if front.isEmpty then [] else front :: graph.wavefrontsAfter fuel (done ++ front)

/-- The wavefronts of the first execution. Each holds an item, so there are no
more of them than items. -/
def wavefronts (graph : TaskGraph) : List (List Nat) :=
  graph.wavefrontsAfter graph.items.length []

end TaskGraph

end MeshTasks
