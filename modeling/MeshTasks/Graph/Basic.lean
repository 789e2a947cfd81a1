import MeshTasks.Graph.Item
import MeshTasks.Graph.Edge

/-!
# Task graphs

A task graph lists its items and its edges in the order in which they were
added; an item is named by its place in the list.
-/

namespace MeshTasks

structure TaskGraph where
  items : List WorkItem
  edges : List Edge
deriving DecidableEq

/-- The numbers of items and edges of each sort. -/
structure GraphSummary where
  unitItems : Nat
  sendItems : Nat
  dataEdges : Nat
  orderingEdges : Nat
  firstIterationEdges : Nat
  subsequentIterationEdges : Nat
deriving DecidableEq

namespace TaskGraph

def empty : TaskGraph := ⟨[], []⟩

instance : Inhabited TaskGraph := ⟨empty⟩

def item? (graph : TaskGraph) (id : Nat) : Option WorkItem :=
  graph.items[id]?

/-- The graph with one more item, and the place of that item. -/
def addItem (graph : TaskGraph) (item : WorkItem) : TaskGraph × Nat :=
  ({ graph with items := graph.items ++ [item] }, graph.items.length)

/-- The graph with an edge, merged into a parallel edge if there is one, and the
place of the edge. -/
def addEdge (graph : TaskGraph) (edge : Edge) : TaskGraph × Nat :=
  let (edges, place) := edge.absorb graph.edges
  ({ graph with edges }, place)

/-- The items that pass a test, by place. -/
def itemsWhere (graph : TaskGraph) (test : WorkItem → Bool) : List Nat :=
  (List.range graph.items.length).filter fun id =>
    match graph.items[id]? with
    | none => false
    | some item => test item

/-- The items of units, in the order in which they were added. -/
def unitItems (graph : TaskGraph) : List Nat :=
  graph.itemsWhere fun item => !item.isSend

/-- The send items, in the order in which they were added. -/
def sendItems (graph : TaskGraph) : List Nat :=
  graph.itemsWhere WorkItem.isSend

/-- The items of the unit at a position. -/
def itemsOf (graph : TaskGraph) (unit : Nat) : List Nat :=
  graph.itemsWhere fun item => decide (item.unit? = some unit)

/-- An order for running the items one after another: sends first, then the
items of units. -/
def executionOrder (graph : TaskGraph) : List Nat :=
  graph.sendItems ++ graph.unitItems

/-- The places of the edges that pass a test, with the edges. -/
def edgesWhere (graph : TaskGraph) (test : Edge → Bool) : List (Nat × Edge) :=
  (graph.edges.zipIdx.filter fun (edge, _) => test edge).map fun (edge, place) => (place, edge)

/-- The edges into an item. -/
def incoming (graph : TaskGraph) (id : Nat) : List (Nat × Edge) :=
  graph.edgesWhere fun edge => decide (edge.consumer = id)

/-- The edges out of an item. -/
def outgoing (graph : TaskGraph) (id : Nat) : List (Nat × Edge) :=
  graph.edgesWhere fun edge => decide (edge.producer = id)

def summary (graph : TaskGraph) : GraphSummary where
  unitItems := graph.unitItems.length
  sendItems := graph.sendItems.length
  dataEdges := graph.edges.countP fun edge => decide (edge.transfer.kind = .data)
  orderingEdges := graph.edges.countP fun edge => decide (edge.transfer.kind = .modifyOrdering)
  firstIterationEdges :=
    graph.edges.countP fun edge => decide (edge.transfer.condition = .firstIterationOnly)
  subsequentIterationEdges :=
    graph.edges.countP fun edge => decide (edge.transfer.condition = .subsequentIterationsOnly)

end TaskGraph

end MeshTasks
