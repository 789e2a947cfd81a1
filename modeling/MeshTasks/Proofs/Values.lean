import Mathlib.Logic.Relation
import MeshTasks.Proofs.Compilation
import MeshTasks.Proofs.Targets

/-!
# Who makes and who asks for a value

A value is known by its key. The items of a compiled graph make values on their
own regions and ask for values on the regions of their targets; a request is
served from the nearest earlier maker of its value, and the data edge to it
feeds the item in every execution.
-/

namespace MeshTasks

/-- A data edge leads from one item to another in every execution. -/
def TaskGraph.Feeds (graph : TaskGraph) (earlier later : Nat) : Prop :=
  ∃ edge ∈ graph.edges, edge.transfer.kind = .data ∧ edge.transfer.condition = .always ∧
    edge.producer = earlier ∧ edge.consumer = later

namespace Compiled

/-- The item at a place computes or modifies a value. -/
structure Produces (compiled : Compiled) (id : Nat) (item : WorkItem) (key : ValueKey) : Prop where
  item_at : compiled.graph.item? id = some item
  by_access : ∃ unit access, item.unit?.bind (compiled.units[·]?) = some unit ∧
    access ∈ unit.produced ∧ key ∈ producedKeys access item

/-- The item at a place asks for a new value by an access of a certain list of
its unit. -/
structure AsksFor (compiled : Compiled) (grid : Grid) (among : WorkUnit → List Access) (id : Nat)
    (item : WorkItem) (key : ValueKey) : Prop where
  item_at : compiled.graph.item? id = some item
  by_access : ∃ unit access, item.unit?.bind (compiled.units[·]?) = some unit ∧
    access ∈ among unit ∧ unit.isNewLike access.binding = true ∧ access.label = key.label ∧
      key.material ∈ materialKeys access item ∧
        ∃ found, targets grid item unit access = .ok found ∧
          ∃ target ∈ found, target.region? = key.region

/-- The item at a place leaves a value that is seen under a key, by an access of
its unit. -/
structure Leaves (compiled : Compiled) (id : Nat) (item : WorkItem) (unit : WorkUnit)
    (access : Access) (key : ValueKey) : Prop where
  item_at : compiled.graph.item? id = some item
  unit_of : item.unit?.bind (compiled.units[·]?) = some unit
  produced : access ∈ unit.produced
  takes_part : takesPart unit item access = true
  seen : key ∈ producedKeys access item ∨ { key with region := none } ∈ producedKeys access item

/-- What is left under a key is a value of the label of the key. -/
theorem Leaves.label_eq
    {compiled : Compiled} {id : Nat} {item : WorkItem} {unit : WorkUnit} {access : Access}
    {key : ValueKey}
    (leaves : compiled.Leaves id item unit access key) :
    access.label = key.label := by
  rcases leaves.seen with within | across
  · exact (label_of_mem_producedKeys within).symm
  · exact (label_of_mem_producedKeys across).symm

/-- An edge of every execution brings data for an access that asks for a new
value. -/
structure BringsNew (compiled : Compiled) (edge : Edge) (item : WorkItem) : Prop where
  mem : edge ∈ compiled.graph.edges
  is_data : edge.transfer.kind = .data
  always : edge.transfer.condition = .always
  item_at : compiled.graph.item? edge.consumer = some item
  is_new : ∃ unit, item.unit?.bind (compiled.units[·]?) = some unit ∧
    unit.isNewLike edge.transfer.binding = true

end Compiled

namespace Compiler

namespace Built

variable {compiler : Compiler} {units : List WorkUnit} {items : List WorkItem}
  {compiled : Compiled}

/-- Below the send items the items of the graph are those of the units. -/
theorem getElem?_of_item?
    (built : compiler.Built units items compiled)
    {id : Nat} {item : WorkItem}
    (bound : id < items.length)
    (itemAt : compiled.graph.item? id = some item) :
    items[id]? = some item := by
  have atPlace : compiled.graph.items[id]? = some item := itemAt
  rw [built.items_eq, List.getElem?_append_left bound] at atPlace
  exact atPlace

theorem item_of_unit?
    (built : compiler.Built units items compiled)
    {id position : Nat} {item : WorkItem}
    (itemAt : compiled.graph.item? id = some item)
    (fromUnit : item.unit? = some position) :
    items[id]? = some item := by
  by_cases bound : id < items.length
  · exact built.getElem?_of_item? bound itemAt
  · have atPlace : compiled.graph.items[id]? = some item := itemAt
    rw [built.items_eq, List.getElem?_append_right (Nat.le_of_not_lt bound)] at atPlace
    obtain ⟨region, _, rfl⟩ := List.mem_map.mp (List.mem_of_getElem? atPlace)
    cases fromUnit

theorem item?_of_getElem?
    (built : compiler.Built units items compiled)
    {id : Nat} {item : WorkItem}
    (itemAt : items[id]? = some item) :
    compiled.graph.item? id = some item := by
  show compiled.graph.items[id]? = some item
  rw [built.items_eq]
  exact List.getElem?_append_left (List.getElem?_eq_some_iff.mp itemAt).1 ▸ itemAt

theorem belongsTo
    (built : compiler.Built units items compiled)
    {id : Nat} {item : WorkItem}
    (itemAt : items[id]? = some item) :
    ∃ unit, item.BelongsTo compiled.units unit :=
  exists_belongsTo built.seated built.items_ok (List.mem_of_getElem? itemAt)

/-- What an item asks for is what one of its requests asks for. -/
theorem exists_request
    (built : compiler.Built units items compiled)
    {among : WorkUnit → List Access}
    (areConsumed : ∀ unit, among unit ⊆ unit.consumed)
    {id : Nat} {item : WorkItem} {key : ValueKey}
    (asksFor : compiled.AsksFor compiler.grid among id item key) :
    ∃ request, (compiler.resolver compiled.units items).Asks (.ofItems items) request ∧
      request.isNewLike = true ∧ request.access ∈ among request.unit ∧ request.key = key ∧
        request.id = id ∧ request.item = item := by
  obtain ⟨unit, access, unitOf, member, newLike, sameLabel, materialMember, found, foundOk,
    target, targetMember, sameRegion⟩ := asksFor.by_access
  obtain ⟨position, fromUnit, _⟩ := Option.bind_eq_some_iff.mp unitOf
  have itemAt := built.item_of_unit? asksFor.item_at fromUnit
  have foundEq :
      (compiler.resolver compiled.units items).targetsFound item unit access = found := by
    unfold Resolver.targetsFound
    have sameGrid : (compiler.resolver compiled.units items).grid = compiler.grid := rfl
    rw [sameGrid, foundOk]
  refine ⟨⟨id, item, unit, access, target, key.material⟩,
    ⟨itemAt, unitOf, areConsumed unit member, foundEq ▸ targetMember, materialMember⟩, newLike,
    member, ?_, rfl, rfl⟩
  unfold Request.key
  rw [sameLabel, sameRegion]

/-- Only an item that has regions produces a value of a region. -/
theorem regions_ne_nil_of_mem_producedKeys
    {access : Access} {item : WorkItem} {key : ValueKey} {region : RegionId}
    (member : key ∈ producedKeys access item)
    (regional : key.region = some region) :
    item.regions ≠ [] := by
  intro placedNowhere
  obtain ⟨regionKey, ofRegion, ofMaterial⟩ := List.mem_flatMap.mp member
  obtain ⟨material, _, rfl⟩ := List.mem_map.mp ofMaterial
  have sameRegion : regionKey = some region := regional
  have noRegion : access.isDomainWide = true ∨ item.regions.isEmpty = true :=
    Or.inr (List.isEmpty_iff.mpr placedNowhere)
  unfold regionKeys at ofRegion
  rw [if_pos noRegion, List.mem_singleton, sameRegion] at ofRegion
  cases ofRegion

/-- What an item with regions produces is recorded in its name. -/
theorem exists_recording
    (built : compiler.Built units items compiled)
    {id : Nat} {item : WorkItem} {key : ValueKey}
    (produces : compiled.Produces id item key)
    (placed : item.regions ≠ []) :
    ∃ unit access, (⟨key, id, item.order, access.mode⟩ : Recording).MadeBy compiled.units
      (.ofItems items) item unit access := by
  obtain ⟨unit, access, unitOf, produced, keyMember⟩ := produces.by_access
  obtain ⟨position, fromUnit, _⟩ := Option.bind_eq_some_iff.mp unitOf
  have itemAt := built.item_of_unit? produces.item_at fromUnit
  have notEmpty : item.regions.isEmpty = false :=
    Bool.eq_false_iff.mpr fun empty => placed (List.isEmpty_iff.mp empty)
  refine ⟨unit, access, itemAt, unitOf, produced, ?_, keyMember, rfl, rfl⟩
  unfold takesPart
  rw [notEmpty, Bool.not_false, Bool.or_true, Bool.true_or]

/-- What a lookup sees are the values that items of the graph leave. -/
theorem mem_visible_iff
    (built : compiler.Built units items compiled)
    {entry : ProducerEntry} {key : ValueKey} :
    entry ∈ (compiler.resolver compiled.units items).index.visible key ↔
      ∃ item unit access, compiled.Leaves entry.item item unit access key ∧
        entry.order = item.order ∧ entry.mode = access.mode := by
  rw [ProducerIndex.mem_visible]
  constructor
  · intro recorded
    rcases recorded with within | across
    · obtain ⟨item, unit, access, made⟩ := mem_allRecordings.mp within
      exact ⟨item, unit, access, ⟨built.item?_of_getElem? made.item_at, made.unit_of,
        made.produced, made.takes_part, Or.inl made.key_mem⟩, made.order_eq, made.mode_eq⟩
    · obtain ⟨item, unit, access, made⟩ := mem_allRecordings.mp across
      exact ⟨item, unit, access, ⟨built.item?_of_getElem? made.item_at, made.unit_of,
        made.produced, made.takes_part, Or.inr made.key_mem⟩, made.order_eq, made.mode_eq⟩
  · rintro ⟨item, unit, access, leaves, orderEq, modeEq⟩
    obtain ⟨position, fromUnit, _⟩ := Option.bind_eq_some_iff.mp leaves.unit_of
    have itemAt := built.item_of_unit? leaves.item_at fromUnit
    refine leaves.seen.imp (fun within => ?_) fun across => ?_
    · exact mem_allRecordings.mpr ⟨item, unit, access, itemAt, leaves.unit_of, leaves.produced,
        leaves.takes_part, within, orderEq, modeEq⟩
    · exact mem_allRecordings.mpr ⟨item, unit, access, itemAt, leaves.unit_of, leaves.produced,
        leaves.takes_part, across, orderEq, modeEq⟩

theorem feeds_of_takes
    (built : compiler.Built units items compiled)
    {request : Request} {producer : ProducerEntry}
    (takes : (compiler.resolver compiled.units items).Takes (.ofItems items) request producer) :
    compiled.graph.Feeds producer.item request.id := by
  have adds : compiler.Adds compiled.units items (request.edgeFrom producer.item .always) :=
    .data takes
  obtain ⟨edge, member, sameProducer, sameConsumer, sameTransfer⟩ := built.exists_edge adds
  refine ⟨edge, member, ?_, ?_, sameProducer, sameConsumer⟩
  · rw [sameTransfer]
    rfl
  · rw [sameTransfer]
    rfl

/-- Reductions are asked for without a region. -/
private theorem region_eq_none_of_isReduction
    {request : Request}
    (asks : (compiler.resolver compiled.units items).Asks (.ofItems items) request)
    (reduction : request.access.label.isReduction = true) :
    request.key.region = none := by
  have member := asks.target_mem
  unfold Resolver.targetsFound targets at member
  rw [reduction, if_pos rfl] at member
  have isGlobal : request.target = .global := List.mem_singleton.mp member
  show request.target.region? = none
  rw [isGlobal]
  rfl

/-- Only a value that is no reduction belongs to a region. -/
theorem not_reduction_of_region
    {request : Request} {region : RegionId}
    (asks : (compiler.resolver compiled.units items).Asks (.ofItems items) request)
    (regional : request.key.region = some region) :
    request.access.label.isReduction = false := by
  rw [Bool.eq_false_iff]
  intro reduction
  rw [region_eq_none_of_isReduction asks reduction] at regional
  cases regional

/-- A value is looked up under the key by which it is asked for. -/
theorem producerKey_eq
    {request : Request}
    (asks : (compiler.resolver compiled.units items).Asks (.ofItems items) request) :
    request.producerKey = request.key := by
  unfold Request.producerKey
  by_cases reduction : request.access.label.isReduction = true
  · rw [if_pos reduction, ← region_eq_none_of_isReduction asks reduction]
  · rw [if_neg reduction]

/-- A request whose value has a nearest maker takes it from there. -/
theorem takes_of_findProducer?
    {request : Request} {nearest : ProducerEntry}
    (asks : (compiler.resolver compiled.units items).Asks (.ofItems items) request)
    (newLike : request.isNewLike = true)
    (notReduction : request.access.label.isReduction = false)
    (found : (compiler.resolver compiled.units items).index.findProducer? request.key
      request.item.order = some nearest) :
    (compiler.resolver compiled.units items).Takes (.ofItems items) request nearest := by
  apply takes_of_mem_producers asks newLike
  unfold Resolver.producers Request.producerKey
  rw [notReduction, if_neg Bool.false_ne_true, if_neg Bool.false_ne_true, found]
  exact List.mem_singleton_self nearest

/-- A request whose value has an earlier maker has a nearest one. -/
theorem exists_nearest
    {request : Request} {candidate : ProducerEntry}
    (visible : candidate ∈
      (compiler.resolver compiled.units items).index.visible request.key)
    (earlier : candidate.order < request.item.order) :
    ∃ nearest,
      (compiler.resolver compiled.units items).index.findProducer? request.key
          request.item.order = some nearest ∧
        candidate.order ≤ nearest.order ∧ nearest.order < request.item.order ∧
          nearest ∈ (compiler.resolver compiled.units items).index.visible request.key := by
  have isCandidate := ProducerIndex.mem_candidates.mpr ⟨visible, earlier⟩
  obtain ⟨nearest, found⟩ := ProducerIndex.findProducer?_isSome isCandidate
  obtain ⟨nearestCandidate, greatest⟩ := ProducerIndex.findProducer?_spec found
  obtain ⟨nearestVisible, nearestEarlier⟩ := ProducerIndex.mem_candidates.mp nearestCandidate
  exact ⟨nearest, found, greatest candidate isCandidate, nearestEarlier, nearestVisible⟩

private theorem key_of_mem_scrubKeys
    {request : Request} {producer : Nat} {condition : Condition} {carried : ScrubKey}
    (member : carried ∈ (request.edgeFrom producer condition).scrubKeys) :
    request.key = ⟨carried.label, carried.region, carried.material⟩ ∧
      carried.binding = request.access.binding := by
  obtain ⟨_, sameLabel, sameBinding, sameRegion, carries⟩ := Edge.mem_scrubKeys.mp member
  have sameMaterial : carried.material = request.material := by
    rcases carries with ⟨noMaterials, isNone⟩ | ⟨material, held, isSome⟩
    · have toListNil : request.material.toList = [] := noMaterials
      rw [Option.toList_eq_nil_iff] at toListNil
      rw [isNone, toListNil]
    · have inRequest : material ∈ request.material.toList := held
      rw [Option.mem_toList] at inRequest
      exact isSome.trans inRequest.symm
  refine ⟨?_, sameBinding⟩
  rw [sameLabel, sameRegion, sameMaterial]
  rfl

/-- A new value that an edge brings in every execution is one that a request
takes. -/
theorem exists_takes_of_carried
    (built : compiler.Built units items compiled)
    {edge : Edge} {item : WorkItem} {carried : ScrubKey}
    (brings : compiled.BringsNew edge item)
    (member : carried ∈ edge.scrubKeys) :
    ∃ request producer,
      (compiler.resolver compiled.units items).Takes (.ofItems items) request producer ∧
        request.key = ⟨carried.label, carried.region, carried.material⟩ ∧
          request.id = edge.consumer ∧ request.item = item ∧ producer.item = edge.producer := by
  obtain ⟨source, sourceMember, ⟨sameProducer, sameConsumer, sameTransfer⟩, ofSource⟩ :=
    built.gathered.exists_source brings.mem member
  have adds : compiler.Adds compiled.units items source :=
    Resolver.mem_additions_iff_adds.mp sourceMember
  have same_item : ∀ {request : Request},
      (compiler.resolver compiled.units items).Asks (.ofItems items) request →
        request.id = source.consumer → request.item = item := by
    intro request asks atConsumer
    have itemAt := built.item?_of_getElem? asks.item_at
    rw [atConsumer, ← sameConsumer, brings.item_at] at itemAt
    exact (Option.some.inj itemAt).symm
  cases adds with
  | @data request producer takes =>
      exact ⟨request, producer, takes, (key_of_mem_scrubKeys ofSource).1, sameConsumer.symm,
        same_item takes.asks rfl, sameProducer.symm⟩
  | ordering _ _ _ _ _ _ _ _ =>
      have isData := brings.is_data
      rw [sameTransfer] at isData
      cases isData
  | @send request asks isPrior =>
      exfalso
      obtain ⟨unit, unitOf, newLike⟩ := brings.is_new
      have ofRequest := asks.unit_of
      rw [same_item asks rfl] at ofRequest
      have sameUnit : unit = request.unit := Option.some.inj (unitOf.symm.trans ofRequest)
      rw [sameUnit, sameTransfer] at newLike
      exact isPrior newLike
  | last _ _ _ _ =>
      exfalso
      have always := brings.always
      rw [sameTransfer] at always
      cases always

end Built

end Compiler

end MeshTasks
