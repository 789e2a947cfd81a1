import MeshTasks.Graph.Wavefront

/-!
# Releasing items

The wavefronts are found without looking at all items again and again. An item
is released as soon as every edge into it has been followed; a counter says how
many edges are left. Released items are worked off from a stack, and all edges
out of an item are followed when it is worked off. The level of an item is one
more than the greatest level from which an edge into it was followed.
-/

namespace MeshTasks

structure Release where
  /-- The released items that are still to be worked off, the last one released
  first. -/
  ready : List Nat
  /-- The number of edges into an item that are left to be followed. -/
  pending : Nat → Nat
  level : Nat → Nat
  /-- The items that are worked off, by level. -/
  groups : List (List Nat)

/-- The edges out of an item that count in the first execution, the last one
added first. -/
def TaskGraph.edgesOut (graph : TaskGraph) (id : Nat) : List Edge :=
  (graph.edges.filter fun edge => decide (edge.producer = id) && edge.countsFirst).reverse

namespace Release

/-- The items that are worked off. -/
def done (state : Release) : List Nat :=
  state.groups.flatten

/-- The groups with an item added to that of a level; groups up to there are
made if they are missing. -/
def put (id : Nat) : Nat → List (List Nat) → List (List Nat)
  | 0, [] => [[id]]
  | 0, group :: groups => (group ++ [id]) :: groups
  | level + 1, [] => [] :: put id level []
  | level + 1, group :: groups => group :: put id level groups

/-- Before anything is worked off, the items that wait for nothing are
released. -/
def start (graph : TaskGraph) : Release where
  ready :=
    (graph.executionOrder.filter fun id => decide ((graph.waitsFor id).length = 0)).reverse
  pending := fun id => (graph.waitsFor id).length
  level := fun _ => 0
  groups := []

/-- Follows an edge out of an item of a level. -/
def follow (level : Nat) (state : Release) (edge : Edge) : Release :=
  let left := state.pending edge.consumer - 1
  let raised := max (state.level edge.consumer) (level + 1)
  { state with
    ready := if left = 0 then edge.consumer :: state.ready else state.ready
    pending := fun id => if id = edge.consumer then left else state.pending id
    level := fun id => if id = edge.consumer then raised else state.level id }

/-- Works off the released item on top, if there is one. -/
def step (graph : TaskGraph) (state : Release) : Option Release :=
  match state.ready with
  | [] => none
  | id :: rest =>
      let level := state.level id
      let worked := { state with ready := rest, groups := put id level state.groups }
      some ((graph.edgesOut id).foldl (follow level) worked)

/-- At most so many steps. -/
def run (graph : TaskGraph) : Nat → Release → Release
  | 0, state => state
  | fuel + 1, state =>
      match state.step graph with
      | none => state
      | some next => run graph fuel next

end Release

namespace TaskGraph

/-- The state after the last step. Each step works off an item, so there are no
more of them than items. -/
def released (graph : TaskGraph) : Release :=
  Release.run graph graph.items.length (.start graph)

/-- The groups of items that can run side by side, each in ascending order. -/
def parallelGroups (graph : TaskGraph) : List (List Nat) :=
  graph.released.groups.map fun group =>
    group.mergeSort fun left right => decide (left ≤ right)

end TaskGraph

end MeshTasks
