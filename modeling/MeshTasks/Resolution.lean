import MeshTasks.Instantiation
import MeshTasks.Target

/-!
# Resolution

Every access that consumes a value is resolved for every target and material. A
value of the new store comes from the nearest producer before the item; if there
is none, the value must be a matter between other processes. Any other value
comes from the send item of the supplying region, which is made when it is first
asked for; a graph that is executed again and again takes an old value from its
own last producer after the first execution. A modification also waits for those
who read the value it overwrites.

An error ends the resolution but leaves what was added before it.
-/

namespace MeshTasks

/-- A read of a produced value. -/
structure Reader where
  item : Nat
  unit : Option Nat
  producer : Nat
deriving DecidableEq

/-- Something to be told about a compilation that succeeds all the same. -/
structure Warning where
  unit : String
  label : String
deriving DecidableEq

/-- The one thing that is warned of. -/
def Warning.message : String :=
  "Work unit modifies a value its own per-region instances read; no ordering is added"

/-- The state of a resolution: the graph so far, the send item of each region
asked for, the reads so far and the warnings. -/
structure Resolution where
  graph : TaskGraph
  sends : List (Option RegionId × Nat)
  readers : List (ValueKey × Reader)
  warnings : List Warning

/-- What a resolution works with. -/
structure Resolver where
  grid : Grid
  placement : Placement
  settings : Settings
  units : List WorkUnit
  index : ProducerIndex

/-- One value that an access of an item asks for. -/
structure Request where
  id : Nat
  item : WorkItem
  unit : WorkUnit
  access : Access
  target : Target
  material : Option MaterialId

/-- The name of every send item. -/
def sendName : String := "send_old_data"

namespace Resolution

/-- The state before anything is resolved. -/
def start (graph : TaskGraph) : Resolution := ⟨graph, [], [], []⟩

def addEdge (state : Resolution) (edge : Edge) : Resolution :=
  { state with graph := (state.graph.addEdge edge).1 }

/-- The send item of a region, added to the graph if it is asked for the first
time. -/
def sendFor (state : Resolution) (placement : Placement) (region : Option RegionId) :
    Resolution × Nat :=
  match state.sends.lookup region with
  | some id => (state, id)
  | none =>
      let (graph, id) := state.graph.addItem {
        origin := .priorGeneration
        name := sendName
        regions := region.toList
        materials := none
        process := placement.assign region.toList
        order := 0
        phase := none }
      ({ state with graph, sends := state.sends ++ [(region, id)] }, id)

end Resolution

namespace Request

/-- The value asked for. -/
def key (request : Request) : ValueKey :=
  ⟨request.access.label, request.target.region?, request.material⟩

/-- The value as the index knows it: reductions are recorded without a
region. -/
def producerKey (request : Request) : ValueKey :=
  if request.access.label.isReduction then
    { request.key with region := none }
  else
    request.key

/-- The data edge that serves the request from a producer. -/
def edgeFrom (request : Request) (producer : Nat) (condition : Condition) : Edge where
  producer := producer
  consumer := request.id
  transfer := {
    label := request.access.label
    binding := request.access.binding
    region := request.target.region?
    box := request.target.box?
    offset := request.target.offset
    condition := condition
    kind := .data }
  materials := request.material.toList

/-- The edge that keeps a modification behind a reader of the value. -/
def edgeAfter (request : Request) (reader : Nat) : Edge where
  producer := reader
  consumer := request.id
  transfer := {
    label := request.access.label
    binding := request.access.binding
    region := request.target.region?
    box := none
    offset := .zero
    condition := .always
    kind := .modifyOrdering }
  materials := request.material.toList

/-- Whether the value must come from within the graph. -/
def isNewLike (request : Request) : Bool :=
  request.unit.isNewLike request.access.binding

end Request

namespace Resolver

/-- The producers that a request for a new value is served by: for a reduction
all those at the nearest order, otherwise the nearest one. -/
def producers (resolver : Resolver) (request : Request) : List ProducerEntry :=
  if request.access.label.isReduction then
    resolver.index.findAllProducers request.producerKey request.item.order
  else
    (resolver.index.findProducer? request.producerKey request.item.order).toList

/-- Whether neither the item nor the supplying region is a matter of the local
process. -/
def isRemote (resolver : Resolver) (request : Request) : Bool :=
  decide (request.item.process ≠ resolver.placement.localProcess) &&
    match request.target.region?.bind resolver.placement.owner? with
    | none => false
    | some owner => decide (owner ≠ resolver.placement.localProcess)

/-- The error of a request that nothing serves. It names the nearest later
producer. -/
def unresolved (resolver : Resolver) (graph : TaskGraph) (request : Request) : Error :=
  let nearest := do
    let entry ← resolver.index.findFollowing? request.producerKey request.item.order
    let item ← graph.item? entry.item
    return item.render
  .unresolved request.access.label.name request.access.binding request.item.render
    request.target.region? request.material nearest

/-- Whether the unit of an item has one item for each region. -/
def isPerRegion (resolver : Resolver) (item : WorkItem) : Bool :=
  match item.unit?.bind (resolver.units[·]?) with
  | none => false
  | some unit => decide (unit.policy = .perRegion)

/-- Keeps a modification behind one reader. Items of one unit, spread over
regions, are not kept apart; the first time this leaves a read unordered there
is a warning. -/
def orderAfter (resolver : Resolver) (request : Request) (state : Resolution) (reader : Reader) :
    Resolution :=
  if reader.unit.isSome ∧ reader.unit = request.item.unit? ∧
      resolver.isPerRegion request.item then
    if resolver.settings.warnSameUnitModify ∧ state.warnings.isEmpty then
      { state with warnings := [⟨request.item.name, request.access.label.name⟩] }
    else
      state
  else
    state.addEdge (request.edgeAfter reader.item)

/-- Keeps a modification behind the reads of the value that it overwrites. -/
def orderAfterReaders (resolver : Resolver) (request : Request) (state : Resolution)
    (producer : Nat) : Resolution :=
  let earlier := state.readers.filter fun (key, reader) =>
    decide (key = request.key) && decide (reader.producer = producer) &&
      decide (reader.item ≠ request.id)
  (earlier.map Prod.snd).foldl (resolver.orderAfter request) state

/-- Serves a request from one producer, unless that is the item itself. -/
def follow (resolver : Resolver) (request : Request) (state : Resolution)
    (producer : ProducerEntry) : Resolution :=
  if producer.item = request.id then
    state
  else
    let linked := state.addEdge (request.edgeFrom producer.item .always)
    if request.access.mode = .modifies then
      resolver.orderAfterReaders request linked producer.item
    else
      { linked with
        readers := linked.readers ++
          [(request.key, ⟨request.id, request.item.unit?, producer.item⟩)] }

/-- Serves a request for a new value. -/
def serveNew (resolver : Resolver) (state : Resolution) (request : Request) :
    Except (Halted Resolution) Resolution :=
  match resolver.producers request with
  | [] =>
      if resolver.isRemote request then
        .ok state
      else
        .error ⟨resolver.unresolved state.graph request, state⟩
  | first :: others => .ok ((first :: others).foldl (resolver.follow request) state)

/-- The item that produces an old value for the executions after the first. -/
def lastProducer? (resolver : Resolver) (request : Request) : Option ProducerEntry :=
  if resolver.settings.iterative ∧ request.access.binding = .old then
    resolver.index.findProducer? request.producerKey ProducerIndex.lastOrder
  else
    none

/-- Serves a request for a value of an earlier generation. -/
def servePrior (resolver : Resolver) (state : Resolution) (request : Request) : Resolution :=
  let (asked, send) := state.sendFor resolver.placement request.target.region?
  match resolver.lastProducer? request with
  | none => asked.addEdge (request.edgeFrom send .always)
  | some producer =>
      let first := asked.addEdge (request.edgeFrom send .firstIterationOnly)
      if producer.item = request.id then
        first
      else
        first.addEdge (request.edgeFrom producer.item .subsequentIterationsOnly)

def serve (resolver : Resolver) (state : Resolution) (request : Request) :
    Except (Halted Resolution) Resolution :=
  if request.isNewLike then
    resolver.serveNew state request
  else
    .ok (resolver.servePrior state request)

/-- The requests of an access of an item: one for each target and material. -/
def requests (id : Nat) (item : WorkItem) (unit : WorkUnit) (access : Access)
    (targets : List Target) : List Request :=
  targets.flatMap fun target =>
    (materialKeys access item).map fun material => ⟨id, item, unit, access, target, material⟩

/-- Resolves one access of an item. -/
def resolveAccess (resolver : Resolver) (id : Nat) (item : WorkItem) (unit : WorkUnit)
    (state : Resolution) (access : Access) : Except (Halted Resolution) Resolution :=
  match targets resolver.grid item unit access with
  | .error error => .error ⟨error, state⟩
  | .ok found => (requests id item unit access found).foldlM resolver.serve state

/-- Resolves every access by which an item consumes a value. -/
def resolveItem (resolver : Resolver) (graph : TaskGraph) (state : Resolution) (id : Nat) :
    Except (Halted Resolution) Resolution :=
  match graph.item? id with
  | none => .ok state
  | some item =>
      match item.unit?.bind (resolver.units[·]?) with
      | none => .ok state
      | some unit => unit.consumed.foldlM (resolver.resolveAccess id item unit) state

/-- Resolves every item of a graph. -/
def resolve (resolver : Resolver) (graph : TaskGraph) :
    Except (Halted Resolution) Resolution :=
  graph.unitItems.foldlM (resolver.resolveItem graph) (.start graph)

end Resolver

end MeshTasks
