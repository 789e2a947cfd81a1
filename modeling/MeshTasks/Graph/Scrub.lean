import MeshTasks.Graph.Basic

/-!
# Consumers of stored values

A stored value can be dropped once all its consumers have run. The scrub count
of a value is the number of data edges that carry it.
-/

namespace MeshTasks

/-- A stored value: one material of a label in a generation on a region. -/
structure ScrubKey where
  label : Label
  binding : Binding
  region : Option RegionId
  material : Option MaterialId
deriving DecidableEq

/-- An optional number as a number; its absence comes first. -/
def rankOption {α : Type} [Ranked α] : Option α → Nat
  | none => 0
  | some value => rank value + 1

/-- Keys are listed by name, centering, binding, region and material. -/
instance : Ord ScrubKey :=
  ⟨fun left right =>
    (compare left.label.name right.label.name).then <|
      (compare left.label.centering.rank right.label.centering.rank).then <|
        (compare left.binding.slot right.binding.slot).then <|
          (compare (rankOption left.region) (rankOption right.region)).then
            (compare (rankOption left.material) (rankOption right.material))⟩

/-- The stored values that an edge carries; without materials, the one value of
no material. -/
def Edge.scrubKeys (edge : Edge) : List ScrubKey :=
  let key (material : Option MaterialId) : ScrubKey :=
    ⟨edge.transfer.label, edge.transfer.binding, edge.transfer.region, material⟩
  if edge.transfer.kind ≠ .data then
    []
  else if edge.materials.isEmpty then
    [key none]
  else
    edge.materials.map fun material => key (some material)

namespace TaskGraph

/-- Every stored value, once for each data edge that carries it. -/
def scrubKeys (graph : TaskGraph) : List ScrubKey :=
  graph.edges.flatMap Edge.scrubKeys

/-- The number of data edges that carry a stored value. -/
def scrubCount (graph : TaskGraph) (key : ScrubKey) : Nat :=
  graph.scrubKeys.count key

/-- The stored values that are carried at all, in the order of keys, with their
counts. -/
def scrubTable (graph : TaskGraph) : List (ScrubKey × Nat) :=
  let sorted := graph.scrubKeys.eraseDups.mergeSort fun left right => (compare left right).isLE
  sorted.map fun key => (key, graph.scrubCount key)

end TaskGraph

end MeshTasks
