import MeshTasks.Compilation
import MeshTasks.Proofs.Resolution.Adds
import MeshTasks.Proofs.Schedule.Seating

/-!
# Compilations that succeed

A compilation succeeds exactly when `Built` holds of its result for some items.
The graph then has these items and the send items after them, and its edges are
gathered from what `Resolver.Adds` lists.
-/

namespace MeshTasks

namespace Compiler

/-- What the compiler resolves the accesses of sorted units with. -/
def resolver (compiler : Compiler) (sorted : List WorkUnit) (items : List WorkItem) : Resolver :=
  ⟨compiler.grid, compiler.placement, compiler.settings, sorted,
    ⟨allRecordings sorted (.ofItems items)⟩⟩

/-- The requests that the items of sorted units make. -/
def agenda (compiler : Compiler) (sorted : List WorkUnit) (items : List WorkItem) :
    List Request :=
  (compiler.resolver sorted items).agenda (.ofItems items)

/-- The place of the send item of a region among the items of a compiled
graph. -/
def sendPlace (compiler : Compiler) (sorted : List WorkUnit) (items : List WorkItem) :
    Option RegionId → Nat :=
  Resolver.sendPlace (.ofItems items) (compiler.agenda sorted items)

/-- The edges added for sorted units, before parallel ones are merged. -/
def additions (compiler : Compiler) (sorted : List WorkUnit) (items : List WorkItem) :
    List Edge :=
  (compiler.resolver sorted items).additions (compiler.sendPlace sorted items) []
    (compiler.agenda sorted items)

/-- An edge is added for one of the reasons there are. -/
def Adds (compiler : Compiler) (sorted : List WorkUnit) (items : List WorkItem) : Edge → Prop :=
  (compiler.resolver sorted items).Adds (.ofItems items) (compiler.sendPlace sorted items)

/-- What a compilation that succeeds has made of its units. -/
structure Built (compiler : Compiler) (units : List WorkUnit) (items : List WorkItem)
    (compiled : Compiled) : Prop where
  sorted_ok : sortUnits units = .ok compiled.units
  items_ok :
    instantiateAll compiler.grid compiler.settings compiler.placement compiled.units = .ok items
  agreed :
    (allRecordings compiled.units (.ofItems items)).Pairwise (Recording.Agrees (.ofItems items))
  has_targets : ∀ id ∈ (TaskGraph.ofItems items).unitItems,
    (compiler.resolver compiled.units items).HasTargets (.ofItems items) id
  served : ∀ request ∈ compiler.agenda compiled.units items,
    (compiler.resolver compiled.units items).Served request
  graph_eq :
    compiled.graph =
      ((compiler.agenda compiled.units items).foldl
        (compiler.resolver compiled.units items).advance (.start (.ofItems items))).graph
  warnings_eq :
    compiled.warnings =
      ((compiler.agenda compiled.units items).foldl
        (compiler.resolver compiled.units items).advance (.start (.ofItems items))).warnings

private theorem link_eq_ok_iff
    {compiler : Compiler} {units sorted : List WorkUnit} {compiled : Compiled}
    (sortedOk : sortUnits units = .ok sorted) :
    compiler.link sorted = .ok compiled ↔
      compiled.units = sorted ∧ ∃ items, compiler.Built units items compiled := by
  unfold link
  rw [bind_eq_ok_iff]
  constructor
  · rintro ⟨built, builtOk, linked⟩
    obtain ⟨items, itemsOk, rfl, agreed⟩ := blueprint_eq_ok_iff.mp builtOk
    dsimp only at linked
    split at linked
    · cases linked
    · rename_i resolved resolvedOk
      cases linked
      obtain ⟨⟨hasTargets, served⟩, rfl⟩ := Resolver.resolve_eq_ok_iff.mp resolvedOk
      exact ⟨rfl, items, sortedOk, itemsOk, agreed, hasTargets, served, rfl, rfl⟩
  · rintro ⟨rfl, items, built⟩
    refine ⟨_, blueprint_eq_ok_iff.mpr ⟨items, built.items_ok, rfl, built.agreed⟩, ?_⟩
    dsimp only
    have resolvedOk :=
      Resolver.resolve_eq_ok_iff.mpr ⟨⟨built.has_targets, built.served⟩, rfl⟩
    unfold resolver at resolvedOk
    rw [resolvedOk]
    dsimp only
    rw [Except.ok.injEq]
    obtain ⟨compiledUnits, compiledGraph, compiledWarnings⟩ := compiled
    exact (congrArg₂ (Compiled.mk compiledUnits) built.graph_eq built.warnings_eq).symm

theorem compile_eq_ok_iff
    {compiler : Compiler} {units : List WorkUnit} {compiled : Compiled} :
    compiler.compile units = .ok compiled ↔
      compiler.settings.check = .ok () ∧ validate compiler.grid units = .ok () ∧
        ∃ items, compiler.Built units items compiled := by
  unfold compile
  rw [bind_eq_ok_iff]
  constructor
  · rintro ⟨⟨⟩, checked, rest⟩
    obtain ⟨⟨⟩, valid, rest⟩ := bind_eq_ok_iff.mp rest
    obtain ⟨sorted, sortedOk, linked⟩ := bind_eq_ok_iff.mp rest
    exact ⟨checked, valid, ((link_eq_ok_iff sortedOk).mp linked).2⟩
  · rintro ⟨checked, valid, items, built⟩
    refine ⟨(), checked, bind_eq_ok_iff.mpr ⟨(), valid, bind_eq_ok_iff.mpr ?_⟩⟩
    exact ⟨compiled.units, built.sorted_ok,
      (link_eq_ok_iff built.sorted_ok).mpr ⟨rfl, items, built⟩⟩

namespace Built

variable {compiler : Compiler} {units : List WorkUnit} {items : List WorkItem}
  {compiled : Compiled}

theorem seated (built : compiler.Built units items compiled) : Seated compiled.units := by
  intro position unit unitAt
  obtain ⟨_, _, _, rfl⟩ := (sortUnits_sorted built.sorted_ok).seated unitAt
  rfl

theorem reached (built : compiler.Built units items compiled) :
    ∃ state, state.graph = compiled.graph ∧
      (compiler.resolver compiled.units items).Reached (.ofItems items)
        (compiler.sendPlace compiled.units items) (compiler.agenda compiled.units items) state :=
  ⟨_, built.graph_eq.symm, Resolver.reached_foldl _⟩

theorem items_eq (built : compiler.Built units items compiled) :
    compiled.graph.items =
      items ++
        (Resolver.suppliers (compiler.agenda compiled.units items)).map
          (compiler.resolver compiled.units items).sendItem := by
  obtain ⟨state, graphEq, reached⟩ := built.reached
  rw [← graphEq, reached.items_eq]
  rfl

theorem item?_sendPlace
    (built : compiler.Built units items compiled)
    {region : Option RegionId}
    (member : region ∈ Resolver.suppliers (compiler.agenda compiled.units items)) :
    compiled.graph.item? (compiler.sendPlace compiled.units items region) =
      some ((compiler.resolver compiled.units items).sendItem region) := by
  obtain ⟨state, graphEq, reached⟩ := built.reached
  rw [← graphEq]
  exact reached.item?_idxOf member

/-- The items behind those of the units are send items. -/
theorem exists_supplier
    (built : compiler.Built units items compiled)
    {id : Nat} {item : WorkItem}
    (behind : items.length ≤ id)
    (itemAt : compiled.graph.item? id = some item) :
    ∃ region ∈ Resolver.suppliers (compiler.agenda compiled.units items),
      id = compiler.sendPlace compiled.units items region ∧
        item = (compiler.resolver compiled.units items).sendItem region := by
  obtain ⟨state, graphEq, reached⟩ := built.reached
  rw [← graphEq] at itemAt
  exact reached.exists_known (Resolver.nodup_suppliers _) behind itemAt

theorem edges_eq (built : compiler.Built units items compiled) :
    compiled.graph.edges = Edge.gather [] (compiler.additions compiled.units items) := by
  obtain ⟨state, graphEq, reached⟩ := built.reached
  rw [← graphEq, reached.edges_eq]
  rfl

theorem gathered (built : compiler.Built units items compiled) :
    Edge.Gathered (compiler.additions compiled.units items) compiled.graph.edges := by
  rw [built.edges_eq]
  exact Edge.gathered_gather _

theorem exists_adds
    (built : compiler.Built units items compiled)
    {edge : Edge}
    (member : edge ∈ compiled.graph.edges) :
    ∃ added, compiler.Adds compiled.units items added ∧ edge.Parallel added := by
  obtain ⟨added, addedMember, parallel⟩ := built.gathered.added_of_held edge member
  exact ⟨added, Resolver.mem_additions_iff_adds.mp addedMember, parallel⟩

theorem exists_edge
    (built : compiler.Built units items compiled)
    {added : Edge}
    (adds : compiler.Adds compiled.units items added) :
    ∃ edge ∈ compiled.graph.edges, edge.Parallel added :=
  built.gathered.held_of_added added (Resolver.mem_additions_iff_adds.mpr adds)

/-- The materials of an edge are those of all that was added in parallel to
it. -/
theorem mem_materials_iff
    (built : compiler.Built units items compiled)
    {edge : Edge} {material : MaterialId}
    (member : edge ∈ compiled.graph.edges) :
    material ∈ edge.materials ↔
      ∃ added, compiler.Adds compiled.units items added ∧ edge.Parallel added ∧
        material ∈ added.materials := by
  rw [built.gathered.materials edge member material]
  exact exists_congr fun _ => and_congr_left fun _ => Resolver.mem_additions_iff_adds

/-- What is added is held by an edge with its materials. -/
theorem exists_edge_carrying
    (built : compiler.Built units items compiled)
    {added : Edge}
    (adds : compiler.Adds compiled.units items added) :
    ∃ edge ∈ compiled.graph.edges, edge.Parallel added ∧
      ∀ material ∈ added.materials, material ∈ edge.materials := by
  obtain ⟨edge, member, parallel⟩ := built.exists_edge adds
  refine ⟨edge, member, parallel, fun material carried => ?_⟩
  exact (built.mem_materials_iff member).mpr ⟨added, adds, parallel, carried⟩

/-- A producer that a request is served by is an item of an earlier unit. -/
private theorem exists_producer
    {request : Request} {producer : ProducerEntry}
    (found : producer ∈ (compiler.resolver compiled.units items).producers request) :
    ∃ item, items[producer.item]? = some item ∧ item.order = producer.order ∧
      item.order < request.item.order := by
  obtain ⟨item, itemAt, orderEq, before⟩ :=
    Resolver.exists_item_of_mem_candidates (Resolver.producers_spec found).1
  exact ⟨item, itemAt, orderEq, orderEq ▸ before⟩

/-- An item is no producer of what it asks for. -/
theorem takes_of_mem_producers
    {request : Request} {producer : ProducerEntry}
    (asks : (compiler.resolver compiled.units items).Asks (.ofItems items) request)
    (newLike : request.isNewLike = true)
    (found : producer ∈ (compiler.resolver compiled.units items).producers request) :
    (compiler.resolver compiled.units items).Takes (.ofItems items) request producer := by
  refine ⟨asks, newLike, found, fun itself => ?_⟩
  obtain ⟨item, itemAt, _, earlier⟩ := exists_producer found
  have sameItem : some item = some request.item := by
    rw [← itemAt, itself]
    exact asks.item_at
  cases sameItem
  exact Nat.lt_irrefl _ earlier

private theorem producer_lt
    (built : compiler.Built units items compiled)
    {request : Request} {producer : ProducerEntry}
    (takes : (compiler.resolver compiled.units items).Takes (.ofItems items) request producer) :
    producer.item < request.id := by
  obtain ⟨item, itemAt, _, earlier⟩ := exists_producer takes.found
  by_contra notBefore
  rcases Nat.eq_or_lt_of_le (Nat.le_of_not_lt notBefore) with same | after
  · exact takes.other same.symm
  · exact Nat.not_le_of_lt earlier
      (order_le_of_lt built.seated built.items_ok takes.asks.item_at itemAt after)

theorem id_lt
    {request : Request}
    (asks : (compiler.resolver compiled.units items).Asks (.ofItems items) request) :
    request.id < items.length :=
  TaskGraph.item?_lt asks.item_at

/-- The edges of the first execution lead to items of units, from earlier ones
or from sends. -/
theorem edge_ascends
    (built : compiler.Built units items compiled)
    {edge : Edge}
    (member : edge ∈ compiled.graph.edges)
    (counts : edge.countsFirst = true) :
    edge.consumer < items.length ∧
      (edge.producer < edge.consumer ∨
        items.length ≤ edge.producer ∧ edge.producer < compiled.graph.items.length) := by
  obtain ⟨added, adds, sameProducer, sameConsumer, sameTransfer⟩ := built.exists_adds member
  rw [sameProducer, sameConsumer]
  cases adds with
  | data takes => exact ⟨id_lt takes.asks, Or.inl (built.producer_lt takes)⟩
  | ordering reads _ overwrites _ _ _ before => exact ⟨id_lt overwrites.asks, Or.inl before⟩
  | @send request asks prior =>
      have supplier :
          request.target.region? ∈
            Resolver.suppliers (compiler.agenda compiled.units items) :=
        Resolver.mem_suppliers (Resolver.mem_agenda.mpr asks) prior
      refine ⟨id_lt asks, Or.inr ⟨Nat.le_add_right _ _, ?_⟩⟩
      rw [built.items_eq, List.length_append, List.length_map]
      exact Nat.add_lt_add_left (List.idxOf_lt_length_of_mem supplier) items.length
  | last _ _ _ _ =>
      have condition := congrArg Transfer.condition sameTransfer
      unfold Edge.countsFirst at counts
      exact absurd condition (of_decide_eq_true counts)

theorem producer_ne_consumer
    (built : compiler.Built units items compiled)
    {edge : Edge}
    (member : edge ∈ compiled.graph.edges) :
    edge.producer ≠ edge.consumer := by
  obtain ⟨added, adds, sameProducer, sameConsumer, _⟩ := built.exists_adds member
  rw [sameProducer, sameConsumer]
  cases adds with
  | data takes => exact takes.other
  | ordering reads _ overwrites _ _ _ before => exact Nat.ne_of_lt before
  | send asks _ =>
      exact Nat.ne_of_gt (Nat.lt_of_lt_of_le (id_lt asks) (Nat.le_add_right _ _))
  | last _ _ _ other => exact other

end Built

end Compiler

end MeshTasks
