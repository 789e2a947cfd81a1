import MeshTasks.Proofs.Compilation
import MeshTasks.Proofs.Graph.Release

/-!
# The first execution

The execution order of a compiled graph runs the send items and then the items
of units as they stand. Every edge that counts in the first execution leads
forwards in it, so that nothing waits for itself, and the groups of items that
can run side by side hold every item.
-/

namespace MeshTasks

namespace TaskGraph

variable {graph : TaskGraph} {front back : List WorkItem} {test : WorkItem → Bool}

/-- A test that the front items of a graph pass, and no other, selects the
front. -/
private theorem itemsWhere_front
    (itemsEq : graph.items = front ++ back)
    (passes : ∀ item ∈ front, test item = true)
    (fails : ∀ item ∈ back, test item = false) :
    graph.itemsWhere test = List.range front.length := by
  unfold itemsWhere
  rw [itemsEq, List.length_append, List.range_add, List.filter_append, List.filter_eq_self.mpr,
    List.filter_eq_nil_iff.mpr, List.append_nil]
  · intro id member
    obtain ⟨place, inRange, rfl⟩ := List.mem_map.mp member
    have bound := List.mem_range.mp inRange
    rw [List.getElem?_append_right (Nat.le_add_right _ _), Nat.add_sub_cancel_left,
      List.getElem?_eq_getElem bound]
    dsimp only
    rw [fails _ (List.getElem_mem bound)]
    exact Bool.false_ne_true
  · intro id member
    have bound := List.mem_range.mp member
    rw [List.getElem?_append_left bound, List.getElem?_eq_getElem bound]
    exact passes _ (List.getElem_mem bound)

/-- A test that the back items of a graph pass, and no other, selects the
back. -/
private theorem itemsWhere_back
    (itemsEq : graph.items = front ++ back)
    (fails : ∀ item ∈ front, test item = false)
    (passes : ∀ item ∈ back, test item = true) :
    graph.itemsWhere test = (List.range back.length).map (front.length + ·) := by
  unfold itemsWhere
  rw [itemsEq, List.length_append, List.range_add, List.filter_append,
    List.filter_eq_nil_iff.mpr, List.filter_eq_self.mpr, List.nil_append]
  · intro id member
    obtain ⟨place, inRange, rfl⟩ := List.mem_map.mp member
    have bound := List.mem_range.mp inRange
    rw [List.getElem?_append_right (Nat.le_add_right _ _), Nat.add_sub_cancel_left,
      List.getElem?_eq_getElem bound]
    exact passes _ (List.getElem_mem bound)
  · intro id member
    have bound := List.mem_range.mp member
    rw [List.getElem?_append_left bound, List.getElem?_eq_getElem bound]
    dsimp only
    rw [fails _ (List.getElem_mem bound)]
    exact Bool.false_ne_true

/-- Items of units followed by send items are told apart by where they stand. -/
theorem executionOrder_eq
    (itemsEq : graph.items = front ++ back)
    (ofUnits : ∀ item ∈ front, item.isSend = false)
    (areSends : ∀ item ∈ back, item.isSend = true) :
    graph.executionOrder =
      (List.range back.length).map (front.length + ·) ++ List.range front.length := by
  have unitItemsEq : graph.unitItems = List.range front.length := by
    apply itemsWhere_front itemsEq
    · intro item member
      rw [ofUnits item member]
      rfl
    · intro item member
      rw [areSends item member]
      rfl
  have sendItemsEq : graph.sendItems = (List.range back.length).map (front.length + ·) :=
    itemsWhere_back itemsEq ofUnits areSends
  unfold executionOrder
  rw [sendItemsEq, unitItemsEq]

end TaskGraph

/-- The first execution of a graph has no loops. The execution order lists every
item once and the edges that count lead forwards in it, no edge joins an item to
itself, and the parallel groups hold every item once, the source of each such
edge in an earlier group than its target. -/
structure TaskGraph.RunsForward (graph : TaskGraph) : Prop where
  order_perm : graph.executionOrder.Perm (List.range graph.items.length)
  order_ascends : ∀ edge ∈ graph.edges, edge.countsFirst = true →
    ∃ earlier later : Nat, earlier < later ∧
      graph.executionOrder[earlier]? = some edge.producer ∧
        graph.executionOrder[later]? = some edge.consumer
  no_loop : ∀ edge ∈ graph.edges, edge.producer ≠ edge.consumer
  groups_perm : graph.parallelGroups.flatten.Perm (List.range graph.items.length)
  groups_ascend : ∀ edge ∈ graph.edges, edge.countsFirst = true →
    ∃ (earlier later : Nat) (before after : List Nat), earlier < later ∧
      graph.parallelGroups[earlier]? = some before ∧ edge.producer ∈ before ∧
        graph.parallelGroups[later]? = some after ∧ edge.consumer ∈ after

namespace Compiler

namespace Built

variable {compiler : Compiler} {units : List WorkUnit} {items : List WorkItem}
  {compiled : Compiled}

private theorem executionOrder_eq (built : compiler.Built units items compiled) :
    compiled.graph.executionOrder =
      (List.range (compiled.graph.items.length - items.length)).map (items.length + ·) ++
        List.range items.length := by
  have lengthEq :
      compiled.graph.items.length - items.length =
        ((Resolver.suppliers (compiler.agenda compiled.units items)).map
          (compiler.resolver compiled.units items).sendItem).length := by
    rw [built.items_eq, List.length_append, Nat.add_sub_cancel_left]
  rw [lengthEq]
  refine TaskGraph.executionOrder_eq built.items_eq (fun item member => ?_) fun item member => ?_
  · exact isSend_eq_false_of_mem_items built.items_ok member
  · obtain ⟨region, _, rfl⟩ := List.mem_map.mp member
    rfl

private theorem length_le (built : compiler.Built units items compiled) :
    items.length ≤ compiled.graph.items.length := by
  rw [built.items_eq, List.length_append]
  exact Nat.le_add_right _ _

theorem joins (built : compiler.Built units items compiled) : compiled.graph.Joins := by
  intro edge member counts
  have inUnits := built.length_le
  obtain ⟨consumerBound, earlier | ⟨_, bound⟩⟩ := built.edge_ascends member counts
  · omega
  · omega

/-- A compiled graph rises from its send items through the items of its
units. -/
theorem not_loopReaches
    (built : compiler.Built units items compiled)
    (id : Nat) :
    ¬ compiled.graph.LoopReaches id := by
  apply TaskGraph.not_loopReaches_of_ascends fun id => if id < items.length then id + 1 else 0
  intro edge member counts
  obtain ⟨consumerBound, earlier | ⟨isSend, _⟩⟩ := built.edge_ascends member counts
  · rw [if_pos (Nat.lt_trans earlier consumerBound), if_pos consumerBound]
    exact Nat.succ_lt_succ earlier
  · rw [if_neg (Nat.not_lt_of_le isSend), if_pos consumerBound]
    exact Nat.succ_pos _

/-- A compiled graph joins its items, so the work on it finds the wavefronts. -/
theorem parallelGroups_eq_wavefronts (built : compiler.Built units items compiled) :
    compiled.graph.parallelGroups = compiled.graph.wavefronts :=
  TaskGraph.parallelGroups_eq_wavefronts built.joins

private theorem executionOrder_at_item
    (built : compiler.Built units items compiled)
    {id : Nat}
    (bound : id < items.length) :
    compiled.graph.executionOrder[compiled.graph.items.length - items.length + id]? = some id := by
  rw [built.executionOrder_eq, List.getElem?_append_right, List.length_map, List.length_range,
    Nat.add_sub_cancel_left, List.getElem?_range bound]
  rw [List.length_map, List.length_range]
  exact Nat.le_add_right _ _

private theorem executionOrder_at_send
    (built : compiler.Built units items compiled)
    {id : Nat}
    (isSend : items.length ≤ id)
    (bound : id < compiled.graph.items.length) :
    compiled.graph.executionOrder[id - items.length]? = some id := by
  have place : id - items.length < compiled.graph.items.length - items.length :=
    Nat.sub_lt_sub_right isSend bound
  rw [built.executionOrder_eq, List.getElem?_append_left, List.getElem?_map,
    List.getElem?_range place, Option.map_some, Nat.add_sub_cancel' isSend]
  rwa [List.length_map, List.length_range]

private theorem executionOrder_ascends
    (built : compiler.Built units items compiled)
    {edge : Edge}
    (member : edge ∈ compiled.graph.edges)
    (counts : edge.countsFirst = true) :
    ∃ earlier later : Nat, earlier < later ∧
      compiled.graph.executionOrder[earlier]? = some edge.producer ∧
        compiled.graph.executionOrder[later]? = some edge.consumer := by
  obtain ⟨consumerBound, earlier | ⟨isSend, bound⟩⟩ := built.edge_ascends member counts
  · exact ⟨_, _, Nat.add_lt_add_left earlier _,
      built.executionOrder_at_item (Nat.lt_trans earlier consumerBound),
      built.executionOrder_at_item consumerBound⟩
  · refine ⟨_, _, ?_, built.executionOrder_at_send isSend bound,
      built.executionOrder_at_item consumerBound⟩
    exact Nat.lt_of_lt_of_le (Nat.sub_lt_sub_right isSend bound) (Nat.le_add_right _ _)

end Built

/-- Whatever the units, the grid and the placement, a compiled graph runs
forward. -/
theorem runsForward_of_compile
    {compiler : Compiler} {units : List WorkUnit} {compiled : Compiled}
    (compiledOk : compiler.compile units = .ok compiled) :
    compiled.graph.RunsForward := by
  obtain ⟨_, _, items, built⟩ := compile_eq_ok_iff.mp compiledOk
  exact {
    order_perm := TaskGraph.executionOrder_perm _
    order_ascends := fun _ => built.executionOrder_ascends
    no_loop := fun _ => built.producer_ne_consumer
    groups_perm := by
      rw [built.parallelGroups_eq_wavefronts]
      exact TaskGraph.flatten_wavefronts_perm built.joins built.not_loopReaches
    groups_ascend := by
      intro edge member counts
      rw [built.parallelGroups_eq_wavefronts]
      exact TaskGraph.exists_wavefronts_of_before built.joins ⟨edge, member, counts, rfl, rfl⟩
        (built.not_loopReaches edge.consumer) }

end Compiler

/-! ## A row of two regions -/

namespace Row

def two : Coord := .clamp 2

def four : Coord := ⟨4, by decide, by decide⟩

def eight : Coord := ⟨8, by decide, by decide⟩

/-- A level of two cubes side by side along `x`. -/
def level : Level where
  index := 0
  ratio := .one
  periodic := .none
  regions := [⟨⟨0⟩, 0, ⟨.zero, .splat four⟩⟩, ⟨⟨1⟩, 0, ⟨⟨four, .zero, .zero⟩, ⟨eight, four, four⟩⟩⟩]
  domain := ⟨.zero, ⟨eight, four, four⟩⟩
  widest := four
  coherent := by constructor <;> decide

def grid : Grid := ⟨[level], by decide⟩

def density : Label := ⟨"density", .cell⟩

/-- An access to the density that reaches one cell into the neighbor. -/
def around : Access := { Access.of density with halo := ⟨.cornerAdjacent, .one⟩ }

/-- A unit on some regions of the row, for one material. -/
def unit (name : String) (regions : List RegionId) : WorkUnit :=
  ((WorkUnit.named name .perRegion).onRegions (.ofList regions)).withMaterials [.ofList [⟨0⟩]]

/-- The compiler of one process that owns both regions. -/
def compiler : Compiler :=
  ⟨grid, ⟨⟨0⟩, 1, [(⟨0⟩, ⟨0⟩), (⟨1⟩, ⟨0⟩)], .ofList [⟨0⟩, ⟨1⟩]⟩, .standard⟩

/-- What compiling some units gives, nothing if it fails. -/
def result (units : List WorkUnit) : Compiled :=
  match compiler.compile units with
  | .ok compiled => compiled
  | .error _ => ⟨[], .empty, []⟩

/-- What building some units for a placement gives, nothing if it fails. -/
def builtUnder (placement : Placement) (units : List WorkUnit) : Blueprint :=
  match blueprint grid .standard placement units with
  | .ok built => built
  | .error _ => ⟨.empty, .empty⟩

/-- The left cube reads around itself before the right one is modified. -/
def readThenModify : List WorkUnit := [
  (unit "advance" [⟨0⟩, ⟨1⟩]).computing (.of density) |>.requiring { around with binding := .old },
  (unit "measure" [⟨0⟩]).requiring around,
  (unit "drain" [⟨1⟩]).modifying (.of density)]

end Row

theorem runsForward_row :
    Row.compiler.compile Row.readThenModify = .ok (Row.result Row.readThenModify) ∧
      (Row.result Row.readThenModify).graph.edges.length = 8 ∧
        (Row.result Row.readThenModify).graph.RunsForward := by
  have compiledOk :
      Row.compiler.compile Row.readThenModify = .ok (Row.result Row.readThenModify) := rfl
  exact ⟨compiledOk, rfl, Compiler.runsForward_of_compile compiledOk⟩

end MeshTasks
