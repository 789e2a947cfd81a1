import MeshTasks.Proofs.Resolution.Attempts
import MeshTasks.Proofs.Service

/-!
# Send items are shared

A resolution makes a send item where a value of an earlier generation is first
asked for on a region, and serves all further requests on that region from it.
So there is one for each region on which such a value was asked for, whether the
resolution succeeds or not; data of that region leads away from it and nothing
leads to it.
-/

namespace MeshTasks

/-- A graph that a resolution has added to when the requests of a list were
served: it has one send item of each region on which an earlier generation was
asked for, and data of that region leads away from it. -/
structure Resolver.SharesSends (resolver : Resolver) (graph : TaskGraph) (served : List Request)
    (final : TaskGraph) : Prop where
  kept : ∀ id item, graph.item? id = some item → final.item? id = some item
  only_sends : ∀ id item, final.item? id = some item → graph.item? id = none →
    item.isSend = true
  owned : ∀ id item, final.item? id = some item → item.isSend = true →
    ∃ region, final.IsSendOf id region ∧
      item.process = (region.bind resolver.placement.owner?).getD resolver.placement.localProcess
  asked_iff : ∀ region, (∃ id, final.IsSendOf id region) ↔
    ∃ request ∈ served, request.isNewLike = false ∧ request.target.region? = region
  used : ∀ id region, final.IsSendOf id region → ∃ edge ∈ final.edges, edge.producer = id
  source : ∀ id region, final.IsSendOf id region → ∀ edge ∈ final.edges, edge.consumer ≠ id
  carries : ∀ id region, final.IsSendOf id region → ∀ edge ∈ final.edges, edge.producer = id →
    edge.transfer.kind = .data ∧
      (edge.transfer.condition = .always ∨ edge.transfer.condition = .firstIterationOnly) ∧
        edge.transfer.region = region

namespace Resolver

variable {resolver : Resolver} {graph : TaskGraph} {units : List WorkUnit}

private theorem sendPlace_inj
    {requests : List Request} {region other : Option RegionId}
    (member : region ∈ suppliers requests)
    (same : sendPlace graph requests region = sendPlace graph requests other) :
    region = other :=
  (List.idxOf_inj member).mp (Nat.add_left_cancel same)

private theorem reached_resolve
    (resolver : Resolver) (graph : TaskGraph) :
    resolver.Reached graph (sendPlace graph (resolver.requestsServed graph))
      (resolver.requestsServed graph) (Halted.finalState (resolver.resolve graph)) := by
  rw [finalState_resolve]
  exact reached_foldl _

section

variable (indexed : resolver.index = ⟨allRecordings units graph⟩)

include indexed

private theorem lt_length_of_mem_candidates
    {key : ValueKey} {order : Nat} {producer : ProducerEntry}
    (candidate : producer ∈ resolver.index.candidates key order) :
    producer.item < graph.items.length := by
  rw [indexed] at candidate
  obtain ⟨item, itemAt, _⟩ := exists_item_of_mem_candidates candidate
  exact TaskGraph.item?_lt itemAt

/-- What is added joins items of the graph, or leads to one from a send item. -/
private theorem ends_of_adds
    {sendOf : Option RegionId → Nat} {edge : Edge}
    (adds : resolver.Adds graph sendOf edge) :
    edge.consumer < graph.items.length ∧
      (edge.producer < graph.items.length ∨
        edge.producer = sendOf edge.transfer.region ∧ edge.transfer.kind = .data ∧
          (edge.transfer.condition = .always ∨
            edge.transfer.condition = .firstIterationOnly)) := by
  cases adds with
  | data takes =>
      have candidate := (producers_spec takes.found).1
      exact ⟨TaskGraph.item?_lt takes.asks.item_at,
        Or.inl (lt_length_of_mem_candidates indexed candidate)⟩
  | ordering reads _ overwrites =>
      exact ⟨TaskGraph.item?_lt overwrites.asks.item_at,
        Or.inl (TaskGraph.item?_lt reads.asks.item_at)⟩
  | @send request asks _ =>
      refine ⟨TaskGraph.item?_lt asks.item_at, Or.inr ⟨rfl, rfl, ?_⟩⟩
      simp only [Request.edgeFrom]
      split
      · exact Or.inr rfl
      · exact Or.inl rfl
  | last asks _ found _ =>
      have candidate :=
        (ProducerIndex.findProducer?_spec (lastProducer?_eq_some_iff.mp found).2).1
      exact ⟨TaskGraph.item?_lt asks.item_at,
        Or.inl (lt_length_of_mem_candidates indexed candidate)⟩

end

/-- An edge that a resolution leaves was added for one of its requests. -/
private theorem exists_adds_of_mem_resolve
    (fresh : graph.edges = [])
    {edge : Edge}
    (member : edge ∈ (Halted.finalState (resolver.resolve graph)).graph.edges) :
    ∃ added, resolver.Adds graph (sendPlace graph (resolver.requestsServed graph)) added ∧
      edge.Parallel added := by
  rw [(resolver.reached_resolve graph).edges_eq, fresh] at member
  obtain ⟨added, addedMember, parallel⟩ := (Edge.gathered_gather _).added_of_held edge member
  refine ⟨added, ?_, parallel⟩
  apply adds_of_mem_additions
  · exact fun _ => asks_of_mem_served
  · exact resolver.pairwise_requestsServed graph
  · exact addedMember

/-- An edge leads away from the send item of each region asked for. -/
private theorem exists_edge_of_supplier
    (fresh : graph.edges = [])
    {region : Option RegionId}
    (member : region ∈ suppliers (resolver.requestsServed graph)) :
    ∃ edge ∈ (Halted.finalState (resolver.resolve graph)).graph.edges,
      edge.producer = sendPlace graph (resolver.requestsServed graph) region := by
  obtain ⟨request, requestMember, prior, rfl⟩ := exists_request_of_mem_suppliers member
  obtain ⟨before, rest, whole⟩ := List.append_of_mem requestMember
  rw [(resolver.reached_resolve graph).edges_eq, fresh]
  have added :
      request.edgeFrom (sendPlace graph (resolver.requestsServed graph) request.target.region?)
          (if (resolver.lastProducer? request).isSome then .firstIterationOnly else .always) ∈
        resolver.additions (sendPlace graph (resolver.requestsServed graph)) []
          (resolver.requestsServed graph) :=
    mem_additions.mpr ⟨before, request, rest, whole, send_mem_edgesFor prior _⟩
  obtain ⟨edge, edgeMember, parallel⟩ := (Edge.gathered_gather _).held_of_added _ added
  exact ⟨edge, edgeMember, parallel.1⟩

/-- The end of a resolution of a graph that holds the items of units and no
edges, with the index of what these produce. -/
theorem sharesSends_resolve
    (indexed : resolver.index = ⟨allRecordings units graph⟩)
    (fresh : graph.edges = [])
    (noSends : ∀ id item, graph.item? id = some item → item.isSend = false) :
    resolver.SharesSends graph (resolver.requestsServed graph)
      (Halted.finalState (resolver.resolve graph)).graph := by
  have reached := resolver.reached_resolve graph
  have distinct := nodup_suppliers (resolver.requestsServed graph)
  have isSendOf_iff : ∀ {id region},
      (Halted.finalState (resolver.resolve graph)).graph.IsSendOf id region ↔
        region ∈ suppliers (resolver.requestsServed graph) ∧
          id = sendPlace graph (resolver.requestsServed graph) region :=
    reached.isSendOf_iff distinct noSends
  refine ⟨?kept, ?only_sends, ?owned, ?asked_iff, ?used, ?source, ?carries⟩
  case kept =>
    intro id item itemAt
    rw [reached.item?_of_lt (TaskGraph.item?_lt itemAt)]
    exact itemAt
  case only_sends =>
    intro id item itemAt isNew
    obtain ⟨_, _, _, rfl⟩ :=
      reached.exists_known distinct (List.getElem?_eq_none_iff.mp isNew) itemAt
    rfl
  case owned =>
    intro id item itemAt isSend
    obtain ⟨region, member, rfl, rfl⟩ := reached.exists_region distinct noSends itemAt isSend
    refine ⟨region, isSendOf_iff.mpr ⟨member, rfl⟩, ?_⟩
    cases region with
    | none => rfl
    | some region => rfl
  case asked_iff =>
    intro region
    constructor
    · rintro ⟨id, isSend⟩
      obtain ⟨request, served, prior, regionEq⟩ :=
        exists_request_of_mem_suppliers (isSendOf_iff.mp isSend).1
      exact ⟨request, served, Bool.eq_false_iff.mpr prior, regionEq⟩
    · rintro ⟨request, served, prior, rfl⟩
      exact ⟨_, isSendOf_iff.mpr ⟨mem_suppliers served (Bool.eq_false_iff.mp prior), rfl⟩⟩
  case used =>
    intro id region isSend
    obtain ⟨member, rfl⟩ := isSendOf_iff.mp isSend
    exact exists_edge_of_supplier fresh member
  case source =>
    intro id region isSend edge edgeMember
    obtain ⟨_, rfl⟩ := isSendOf_iff.mp isSend
    obtain ⟨added, adds, _, sameConsumer, _⟩ := exists_adds_of_mem_resolve fresh edgeMember
    have bound := (ends_of_adds indexed adds).1
    rw [sameConsumer]
    exact Nat.ne_of_lt (Nat.lt_of_lt_of_le bound (Nat.le_add_right _ _))
  case carries =>
    intro id region isSend edge edgeMember fromSend
    obtain ⟨member, rfl⟩ := isSendOf_iff.mp isSend
    obtain ⟨added, adds, sameProducer, _, sameTransfer⟩ :=
      exists_adds_of_mem_resolve fresh edgeMember
    rw [sameTransfer]
    rw [sameProducer] at fromSend
    rcases (ends_of_adds indexed adds).2 with bound | ⟨sentFrom, kind, condition⟩
    · rw [fromSend] at bound
      exact absurd bound (Nat.not_lt_of_le (Nat.le_add_right _ _))
    · refine ⟨kind, condition, ?_⟩
      rw [sentFrom] at fromSend
      exact (sendPlace_inj member fromSend.symm).symm

/-- The resolution of a freshly built graph, whether it succeeds or fails,
shares one send item of each region among the requests that it served. If it
succeeds, these are all requests. -/
theorem sharesSends_of_blueprint
    {grid : Grid} {settings : Settings} {placement : Placement} {built : Blueprint}
    (builtOk : blueprint grid settings placement units = .ok built)
    (ofBuilt : resolver.index = built.index) :
    resolver.SharesSends built.graph (resolver.requestsServed built.graph)
        (Halted.finalState (resolver.resolve built.graph)).graph ∧
      ∀ final, resolver.resolve built.graph = .ok final →
        resolver.requestsServed built.graph = resolver.agenda built.graph := by
  obtain ⟨items, itemsOk, rfl, _⟩ := blueprint_eq_ok_iff.mp builtOk
  refine ⟨sharesSends_resolve ofBuilt rfl fun id item itemAt => ?_, fun final => ?_⟩
  · exact isSend_eq_false_of_mem_items itemsOk (List.mem_of_getElem? itemAt)
  · exact requestsServed_of_ok

end Resolver

/-! ## Two cubes that read the old density around them -/

namespace Row

def readOld : WorkUnit :=
  (unit "relax" [⟨0⟩, ⟨1⟩]).requiring { around with binding := .old }

/-- The unit then asks for a density that nothing makes. -/
def readOn : WorkUnit := readOld.requiring (.of density)

def resolverOf (units : List WorkUnit) : Resolver :=
  ⟨grid, compiler.placement, .standard, units, (builtUnder compiler.placement units).index⟩

/-- What the resolution of some units leaves, with or without an error. -/
def resolved (units : List WorkUnit) : TaskGraph :=
  (Halted.finalState
    ((resolverOf units).resolve (builtUnder compiler.placement units).graph)).graph

end Row

theorem sharesSends_of_blueprint_row :
    ((Row.resolved [Row.readOld]).summary = ⟨2, 2, 4, 0, 0, 0⟩ ∧
        (Row.resolverOf [Row.readOld]).SharesSends
          (Row.builtUnder Row.compiler.placement [Row.readOld]).graph
          ((Row.resolverOf [Row.readOld]).agenda
            (Row.builtUnder Row.compiler.placement [Row.readOld]).graph)
          (Row.resolved [Row.readOld])) ∧
      (∃ halted, (Row.resolverOf [Row.readOn]).resolve
          (Row.builtUnder Row.compiler.placement [Row.readOn]).graph = .error halted) ∧
        (Row.resolved [Row.readOn]).summary = ⟨2, 2, 2, 0, 0, 0⟩ ∧
          (Row.resolverOf [Row.readOn]).SharesSends
            (Row.builtUnder Row.compiler.placement [Row.readOn]).graph
            ((Row.resolverOf [Row.readOn]).requestsServed
              (Row.builtUnder Row.compiler.placement [Row.readOn]).graph)
            (Row.resolved [Row.readOn]) := by
  have oldBuilt :
      blueprint Row.grid .standard Row.compiler.placement [Row.readOld] =
        .ok (Row.builtUnder Row.compiler.placement [Row.readOld]) := rfl
  have onBuilt :
      blueprint Row.grid .standard Row.compiler.placement [Row.readOn] =
        .ok (Row.builtUnder Row.compiler.placement [Row.readOn]) := rfl
  obtain ⟨oldShares, allServed⟩ :=
    Resolver.sharesSends_of_blueprint oldBuilt (rfl : (Row.resolverOf [Row.readOld]).index = _)
  rw [allServed _ rfl] at oldShares
  have onShares :=
    Resolver.sharesSends_of_blueprint onBuilt (rfl : (Row.resolverOf [Row.readOn]).index = _)
  exact ⟨⟨rfl, oldShares⟩, ⟨_, rfl⟩, rfl, onShares.1⟩

end MeshTasks
