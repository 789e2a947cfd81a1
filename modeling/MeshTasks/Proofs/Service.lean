import MeshTasks.Proofs.FirstExecution
import MeshTasks.Proofs.Resolution.Attempts
import MeshTasks.Proofs.Values

/-!
# Everything asked for is served, and nothing else is

Each unit item asks for a value with every access that consumes one, from every
target and for every material. In a compiled graph all these requests are
served: new values by the producers that the index finds before the item, unless
the matter lies between other processes, and all others by the send item of the
supplying region. In turn every data edge serves a request, in one of these ways
or from the last producer of an old value. Resolving fails only at an access
without targets or at a request that nothing serves.
-/

namespace MeshTasks

/-- A data edge brings an item what one of its requests is about. -/
structure Edge.Brings (edge : Edge) (request : Request) : Prop where
  consumer_eq : edge.consumer = request.id
  label_eq : edge.transfer.label = request.access.label
  binding_eq : edge.transfer.binding = request.access.binding
  region_eq : edge.transfer.region = request.target.region?
  box_eq : edge.transfer.box = request.target.box?
  offset_eq : edge.transfer.offset = request.target.offset
  kind_eq : edge.transfer.kind = .data
  carries : ∀ material, request.material = some material → material ∈ edge.materials

/-- An item is the one send item of a region. -/
structure TaskGraph.IsSendOf (graph : TaskGraph) (id : Nat) (region : Option RegionId) : Prop where
  sends : ∃ item, graph.item? id = some item ∧ item.isSend = true ∧ item.regions = region.toList
  only : ∀ other item, graph.item? other = some item → item.isSend = true →
    item.regions = region.toList → other = id

namespace Resolver

/-- An item that a resolution adds to a graph without send items is the send
item of a region. -/
theorem Supplied.exists_region
    {resolver : Resolver} {graph : TaskGraph} {known : List (Option RegionId)}
    {state : Resolution} {id : Nat} {item : WorkItem}
    (supplied : resolver.Supplied graph known state)
    (distinct : known.Nodup)
    (noSends : ∀ id item, graph.item? id = some item → item.isSend = false)
    (itemAt : state.graph.item? id = some item)
    (isSend : item.isSend = true) :
    ∃ region ∈ known, id = graph.items.length + known.idxOf region ∧
      item = resolver.sendItem region := by
  by_cases ofGraph : id < graph.items.length
  · rw [supplied.item?_of_lt ofGraph] at itemAt
    simp [noSends id item itemAt] at isSend
  · exact supplied.exists_known distinct (Nat.le_of_not_lt ofGraph) itemAt

theorem Supplied.isSendOf_iff
    {resolver : Resolver} {graph : TaskGraph} {known : List (Option RegionId)}
    {state : Resolution} {id : Nat} {region : Option RegionId}
    (supplied : resolver.Supplied graph known state)
    (distinct : known.Nodup)
    (noSends : ∀ id item, graph.item? id = some item → item.isSend = false) :
    state.graph.IsSendOf id region ↔
      region ∈ known ∧ id = graph.items.length + known.idxOf region := by
  have sameRegion : ∀ {other : Option RegionId},
      (resolver.sendItem other).regions = region.toList → other = region := by
    intro other same
    simpa [sendItem] using congrArg List.head? same
  constructor
  · rintro ⟨⟨item, itemAt, isSend, regionsEq⟩, _⟩
    obtain ⟨other, member, rfl, rfl⟩ := supplied.exists_region distinct noSends itemAt isSend
    obtain rfl := sameRegion regionsEq
    exact ⟨member, rfl⟩
  · rintro ⟨member, rfl⟩
    refine ⟨⟨_, supplied.item?_idxOf member, rfl, rfl⟩, fun other item itemAt isSend same => ?_⟩
    obtain ⟨otherRegion, _, rfl, rfl⟩ := supplied.exists_region distinct noSends itemAt isSend
    rw [sameRegion same]

/-- The ways in which a request is served: by an item, in certain executions. -/
inductive Supplies (resolver : Resolver) (graph : TaskGraph) (request : Request) :
    Nat → Condition → Prop
  | selected {producer : ProducerEntry}
      (is_new : request.isNewLike = true)
      (found : producer ∈ resolver.producers request) :
      Supplies resolver graph request producer.item .always
  | sent {id : Nat} {condition : Condition}
      (is_prior : request.isNewLike = false)
      (is_send : graph.IsSendOf id request.target.region?)
      (first : condition ≠ .subsequentIterationsOnly) :
      Supplies resolver graph request id condition
  | kept {producer : ProducerEntry}
      (is_prior : request.isNewLike = false)
      (iterative : resolver.settings.iterative = true)
      (is_old : request.access.binding = .old)
      (found : resolver.index.findProducer? request.producerKey ProducerIndex.lastOrder =
        some producer) :
      Supplies resolver graph request producer.item .subsequentIterationsOnly

/-- A request concerns none of the items and regions of the local process. -/
def Foreign (resolver : Resolver) (request : Request) : Prop :=
  request.item.process ≠ resolver.placement.localProcess ∧
    ∃ region owner, request.target.region? = some region ∧
      resolver.placement.owner? region = some owner ∧ owner ≠ resolver.placement.localProcess

/-- A graph serves what its unit items ask for, and its data edges do nothing
else. -/
structure Resolves (resolver : Resolver) (graph : TaskGraph) : Prop where
  has_targets : ∀ id item, graph.item? id = some item → item.isSend = false →
    ∃ unit, item.unit?.bind (resolver.units[·]?) = some unit ∧
      ∀ access ∈ unit.consumed, ∃ found, targets resolver.grid item unit access = .ok found
  new_served : ∀ request, resolver.Asks graph request → request.isNewLike = true →
    resolver.producers request ≠ [] ∧
        (∀ producer ∈ resolver.producers request, ∃ edge ∈ graph.edges, edge.Brings request ∧
          edge.producer = producer.item ∧ edge.transfer.condition = .always) ∨
      resolver.producers request = [] ∧ resolver.Foreign request
  prior_served : ∀ request, resolver.Asks graph request → request.isNewLike = false →
    ∃ edge ∈ graph.edges, edge.Brings request ∧
      graph.IsSendOf edge.producer request.target.region? ∧
        edge.transfer.condition ≠ .subsequentIterationsOnly
  data_serves : ∀ edge ∈ graph.edges, edge.transfer.kind = .data →
    (∃ request, resolver.Asks graph request ∧ edge.Brings request ∧
      resolver.Supplies graph request edge.producer edge.transfer.condition) ∧
    ∀ material ∈ edge.materials, ∃ request, request.material = some material ∧
      resolver.Asks graph request ∧ edge.Brings request ∧
        resolver.Supplies graph request edge.producer edge.transfer.condition

/-- Why resolving stops before it is through: an access has no targets, or
nothing serves a request that is not foreign. -/
inductive Stops (resolver : Resolver) (graph : TaskGraph) : Halted Resolution → Prop
  | no_targets {id : Nat} {item : WorkItem} {unit : WorkUnit} {access : Access} {error : Error}
      {reached : Resolution}
      (item_at : graph.item? id = some item)
      (unit_of : item.unit?.bind (resolver.units[·]?) = some unit)
      (consumed : access ∈ unit.consumed)
      (failed : targets resolver.grid item unit access = .error error) :
      Stops resolver graph ⟨error, reached⟩
  | unserved {request : Request} {reached : Resolution}
      (asks : resolver.Asks graph request)
      (is_new : request.isNewLike = true)
      (nothing : resolver.producers request = [])
      (concerns : ¬ resolver.Foreign request) :
      Stops resolver graph ⟨resolver.unresolved reached.graph request, reached⟩

private theorem isRemote_iff {resolver : Resolver} {request : Request} :
    resolver.isRemote request = true ↔ resolver.Foreign request := by
  unfold isRemote Foreign
  cases request.target.region? with
  | none => simp
  | some region =>
      cases owned : resolver.placement.owner? region <;> simp [owned]

private theorem stops_of_serve
    {resolver : Resolver} {graph : TaskGraph} {state : Resolution} {request : Request}
    {halted : Halted Resolution}
    (asks : resolver.Asks graph request)
    (failed : resolver.serve state request = .error halted) :
    resolver.Stops graph halted := by
  unfold serve serveNew at failed
  by_cases newLike : request.isNewLike = true
  · rw [if_pos newLike] at failed
    cases nothing : resolver.producers request with
    | nil =>
        rw [nothing] at failed
        by_cases remote : resolver.isRemote request = true
        · simp [remote] at failed
        · simp only [remote, Bool.false_eq_true, if_false, Except.error.injEq] at failed
          subst failed
          exact .unserved asks newLike nothing (mt isRemote_iff.mpr remote)
    | cons first others => simp [nothing] at failed
  · simp [newLike] at failed

theorem stops_of_resolve
    {resolver : Resolver} {graph : TaskGraph} {halted : Halted Resolution}
    (failed : resolver.resolve graph = .error halted) :
    resolver.Stops graph halted := by
  rw [resolve_eq] at failed
  obtain ⟨attempted, member, reached, attemptFailed⟩ := exists_error_of_foldlM failed
  cases attempted with
  | ok request =>
      have onAgenda : request ∈ resolver.agenda graph := by
        rw [agenda_eq_filterMap]
        exact List.mem_filterMap.mpr ⟨_, member, rfl⟩
      exact stops_of_serve (mem_agenda.mp onAgenda) attemptFailed
  | error error =>
      cases attemptFailed
      obtain ⟨id, item, unit, access, itemAt, unitOf, consumed, ofAccess⟩ := mem_attempts member
      apply Stops.no_targets itemAt unitOf consumed
      unfold attemptsOf at ofAccess
      cases outcome : targets resolver.grid item unit access with
      | error other =>
          simp only [outcome, List.mem_singleton, Except.error.injEq] at ofAccess
          rw [ofAccess]
      | ok found => simp [outcome] at ofAccess

end Resolver

private theorem Edge.brings_of_parallel
    {edge : Edge} {request : Request} {producer : Nat} {condition : Condition}
    (parallel : edge.Parallel (request.edgeFrom producer condition))
    (carries : ∀ material, request.material = some material → material ∈ edge.materials) :
    edge.Brings request := by
  obtain ⟨_, sameConsumer, sameTransfer⟩ := parallel
  exact ⟨sameConsumer, congrArg Transfer.label sameTransfer, congrArg Transfer.binding sameTransfer,
    congrArg Transfer.region sameTransfer, congrArg Transfer.box sameTransfer,
    congrArg Transfer.offset sameTransfer, congrArg Transfer.kind sameTransfer, carries⟩

namespace Compiler

namespace Built

variable {compiler : Compiler} {units : List WorkUnit} {items : List WorkItem}
  {compiled : Compiled} {request : Request}

/-- Send items ask for nothing, so the requests are those of the items before
them. -/
theorem asks_iff (built : compiler.Built units items compiled) :
    (compiler.resolver compiled.units items).Asks compiled.graph request ↔
      (compiler.resolver compiled.units items).Asks (.ofItems items) request := by
  constructor
  · intro asks
    obtain ⟨position, fromUnit, _⟩ := Option.bind_eq_some_iff.mp asks.unit_of
    exact ⟨built.item_of_unit? asks.item_at fromUnit, asks.unit_of, asks.consumed,
      asks.target_mem, asks.material_mem⟩
  · intro asks
    exact ⟨built.item?_of_getElem? asks.item_at, asks.unit_of, asks.consumed, asks.target_mem,
      asks.material_mem⟩

private theorem isSendOf_sendPlace
    (built : compiler.Built units items compiled)
    (asks : (compiler.resolver compiled.units items).Asks (.ofItems items) request)
    (prior : ¬ request.isNewLike = true) :
    compiled.graph.IsSendOf
      (compiler.sendPlace compiled.units items request.target.region?)
      request.target.region? := by
  have noSends : ∀ id item, (TaskGraph.ofItems items).item? id = some item →
      item.isSend = false :=
    fun _ _ itemAt => isSend_eq_false_of_mem_items built.items_ok (List.mem_of_getElem? itemAt)
  obtain ⟨state, graphEq, reached⟩ := built.reached
  rw [← graphEq, reached.isSendOf_iff (Resolver.nodup_suppliers _) noSends]
  exact ⟨Resolver.mem_suppliers (Resolver.mem_agenda.mpr asks) prior, rfl⟩

/-- A data edge is added to serve a request. -/
private theorem exists_request_of_adds
    (built : compiler.Built units items compiled)
    {added : Edge}
    (adds : compiler.Adds compiled.units items added)
    (isData : added.transfer.kind = .data) :
    ∃ request, (compiler.resolver compiled.units items).Asks compiled.graph request ∧
      (compiler.resolver compiled.units items).Supplies compiled.graph request added.producer
        added.transfer.condition ∧
      added = request.edgeFrom added.producer added.transfer.condition := by
  cases adds with
  | data takes =>
      exact ⟨_, built.asks_iff.mpr takes.asks, .selected takes.is_new takes.found, rfl⟩
  | ordering => cases isData
  | @send request asks prior =>
      refine ⟨request, built.asks_iff.mpr asks,
        .sent (Bool.eq_false_iff.mpr prior) (built.isSendOf_sendPlace asks prior) ?_, rfl⟩
      show (if _ then _ else _) ≠ Condition.subsequentIterationsOnly
      split <;> simp
  | @last request producer asks prior found _ =>
      obtain ⟨⟨iterative, isOld⟩, last⟩ := Resolver.lastProducer?_eq_some_iff.mp found
      exact ⟨request, built.asks_iff.mpr asks,
        .kept (Bool.eq_false_iff.mpr prior) iterative isOld last, rfl⟩

/-- A data edge brings each request that something merged into it was added
for. -/
private theorem exists_request_of_parallel
    (built : compiler.Built units items compiled)
    {edge added : Edge}
    (member : edge ∈ compiled.graph.edges)
    (adds : compiler.Adds compiled.units items added)
    (parallel : edge.Parallel added)
    (isData : edge.transfer.kind = .data) :
    ∃ request, added.materials = request.material.toList ∧
      (compiler.resolver compiled.units items).Asks compiled.graph request ∧
        edge.Brings request ∧
          (compiler.resolver compiled.units items).Supplies compiled.graph request edge.producer
            edge.transfer.condition := by
  have ⟨sameProducer, _, sameTransfer⟩ := parallel
  obtain ⟨request, asks, supplies, addedEq⟩ :=
    built.exists_request_of_adds adds (sameTransfer ▸ isData)
  have materialsEq : added.materials = request.material.toList := by
    rw [addedEq]
    rfl
  refine ⟨request, materialsEq, asks, ?_, sameProducer ▸ sameTransfer ▸ supplies⟩
  refine Edge.brings_of_parallel (addedEq ▸ parallel) fun material asked => ?_
  exact (built.mem_materials_iff member).mpr ⟨added, adds, parallel, by simp [materialsEq, asked]⟩

/-- What is added to serve a request is brought by an edge. -/
theorem exists_edge_bringing
    (built : compiler.Built units items compiled)
    {producer : Nat} {condition : Condition}
    (adds : compiler.Adds compiled.units items (request.edgeFrom producer condition)) :
    ∃ edge ∈ compiled.graph.edges, edge.Brings request ∧ edge.producer = producer ∧
      edge.transfer.condition = condition := by
  obtain ⟨edge, member, parallel, carries⟩ := built.exists_edge_carrying adds
  refine ⟨edge, member, Edge.brings_of_parallel parallel fun material asked => ?_, parallel.1,
    congrArg Transfer.condition parallel.2.2⟩
  exact carries material (by simp [Request.edgeFrom, asked])

theorem resolves (built : compiler.Built units items compiled) :
    (compiler.resolver compiled.units items).Resolves compiled.graph where
  has_targets := by
    intro id item itemAt ofUnit
    by_cases bound : id < items.length
    · have placed := built.getElem?_of_item? bound itemAt
      obtain ⟨unit, belongs⟩ := built.belongsTo placed
      refine ⟨unit, belongs.unit_of, fun access consumed => ?_⟩
      have isUnitItem : id ∈ (TaskGraph.ofItems items).unitItems :=
        TaskGraph.mem_unitItems.mpr ⟨item, placed, ofUnit⟩
      exact built.has_targets id isUnitItem item unit placed belongs.unit_of access consumed
    · obtain ⟨_, _, _, rfl⟩ := built.exists_supplier (Nat.le_of_not_lt bound) itemAt
      cases ofUnit
  new_served := by
    intro request asks newLike
    rw [built.asks_iff] at asks
    cases nothing : (compiler.resolver compiled.units items).producers request with
    | nil =>
        refine Or.inr ⟨rfl, Resolver.isRemote_iff.mp ?_⟩
        exact built.served request (Resolver.mem_agenda.mpr asks) newLike nothing
    | cons first others =>
        refine Or.inl ⟨List.cons_ne_nil _ _, fun producer member => ?_⟩
        rw [← nothing] at member
        exact built.exists_edge_bringing (.data (takes_of_mem_producers asks newLike member))
  prior_served := by
    intro request asks isPrior
    rw [built.asks_iff] at asks
    have prior := Bool.eq_false_iff.mp isPrior
    obtain ⟨edge, member, brings, fromSend, conditionEq⟩ :=
      built.exists_edge_bringing (.send asks prior)
    refine ⟨edge, member, brings, ?_, ?_⟩
    · rw [fromSend]
      exact built.isSendOf_sendPlace asks prior
    · rw [conditionEq]
      split <;> simp
  data_serves := by
    intro edge member isData
    constructor
    · obtain ⟨added, adds, parallel⟩ := built.exists_adds member
      obtain ⟨request, _, serves⟩ := built.exists_request_of_parallel member adds parallel isData
      exact ⟨request, serves⟩
    · intro material carried
      obtain ⟨added, adds, parallel, inAdded⟩ := (built.mem_materials_iff member).mp carried
      obtain ⟨request, materialsEq, serves⟩ :=
        built.exists_request_of_parallel member adds parallel isData
      refine ⟨request, ?_, serves⟩
      simpa [materialsEq] using inAdded

end Built

/-- A compiled graph serves every request, and its data edges do nothing else. A
resolution that fails does so for want of targets, or at a request that is
neither served nor foreign. -/
theorem resolves_of_compile (compiler : Compiler) (units : List WorkUnit) :
    (∀ compiled, compiler.compile units = .ok compiled →
      ∃ built,
        blueprint compiler.grid compiler.settings compiler.placement compiled.units = .ok built ∧
          Resolver.Resolves
            ⟨compiler.grid, compiler.placement, compiler.settings, compiled.units, built.index⟩
            compiled.graph) ∧
      ∀ (resolver : Resolver) (graph : TaskGraph) (halted : Halted Resolution),
        resolver.resolve graph = .error halted → resolver.Stops graph halted := by
  refine ⟨fun compiled compiledOk => ?_, fun resolver graph halted => Resolver.stops_of_resolve⟩
  obtain ⟨_, _, items, built⟩ := compile_eq_ok_iff.mp compiledOk
  exact ⟨_, blueprint_eq_ok_iff.mpr ⟨items, built.items_ok, rfl, built.agreed⟩, built.resolves⟩

end Compiler

namespace Row

/-- The left cube asks for a density that nothing makes. -/
def readOnly : List WorkUnit := [(unit "measure" [⟨0⟩]).requiring (.of density)]

/-- The one item of that unit. -/
def measure : WorkItem where
  origin := .unit 0
  name := "measure"
  regions := [⟨0⟩]
  materials := some (.ofList [⟨0⟩])
  process := ⟨0⟩
  order := 0
  phase := none

end Row

theorem resolves_row :
    (∃ compiled, Row.compiler.compile Row.readThenModify = .ok compiled ∧
      ∃ built, blueprint Row.grid .standard Row.compiler.placement compiled.units = .ok built ∧
        Resolver.Resolves ⟨Row.grid, Row.compiler.placement, .standard, compiled.units, built.index⟩
          compiled.graph) ∧
      ∃ halted,
        (Row.compiler.resolver Row.readOnly [Row.measure]).resolve (.ofItems [Row.measure]) =
            .error halted ∧
          (Row.compiler.resolver Row.readOnly [Row.measure]).Stops (.ofItems [Row.measure])
            halted := by
  have compiledOk :
      Row.compiler.compile Row.readThenModify = .ok (Row.result Row.readThenModify) := rfl
  have failed :
      (Row.compiler.resolver Row.readOnly [Row.measure]).resolve (.ofItems [Row.measure]) =
        .error ⟨.unresolved "density" .new "measure@R0 m[0] on P0 (order 0)" (some ⟨0⟩)
          (some ⟨0⟩) none, .start (.ofItems [Row.measure])⟩ := rfl
  refine ⟨⟨_, compiledOk, (Row.compiler.resolves_of_compile _).1 _ compiledOk⟩, _, failed, ?_⟩
  exact (Row.compiler.resolves_of_compile []).2 _ _ _ failed

end MeshTasks
