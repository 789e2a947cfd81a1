import MeshTasks.Proofs.Items.Blueprint
import MeshTasks.Proofs.Producers.Lookup
import MeshTasks.Proofs.Resolution.Additions

/-!
# Why an edge is added

Requests are served in the order of the items that make them, so the reads
before a request are those of lower items. `Resolver.Adds` lists the ways in
which an edge comes about, without any mention of a state: from a producer, from
a reader of the value that a modification overwrites, from the send item of a
region, or from the last producer of an old value.
-/

namespace MeshTasks

namespace Resolver

/-- A request is made by an item of a graph. -/
structure Asks (resolver : Resolver) (graph : TaskGraph) (request : Request) : Prop where
  item_at : graph.item? request.id = some request.item
  unit_of : request.item.unit?.bind (resolver.units[·]?) = some request.unit
  consumed : request.access ∈ request.unit.consumed
  target_mem : request.target ∈ resolver.targetsFound request.item request.unit request.access
  material_mem : request.material ∈ materialKeys request.access request.item

private theorem mem_requests
    {id : Nat} {item : WorkItem} {unit : WorkUnit} {access : Access} {found : List Target}
    {request : Request} :
    request ∈ requests id item unit access found ↔
      ∃ target ∈ found, ∃ material ∈ materialKeys access item,
        request = ⟨id, item, unit, access, target, material⟩ := by
  unfold requests
  rw [List.mem_flatMap]
  refine exists_congr fun target => and_congr_right fun _ => ?_
  rw [List.mem_map]
  exact exists_congr fun material => and_congr_right fun _ => eq_comm

theorem mem_requestsOf
    {resolver : Resolver} {graph : TaskGraph} {id : Nat} {request : Request} :
    request ∈ resolver.requestsOf graph id ↔ resolver.Asks graph request ∧ request.id = id := by
  unfold requestsOf
  constructor
  · intro member
    cases itemAt : graph.item? id with
    | none =>
        rw [itemAt] at member
        cases member
    | some item =>
        rw [itemAt] at member
        dsimp only at member
        cases unitOf : item.unit?.bind (resolver.units[·]?) with
        | none =>
            rw [unitOf] at member
            cases member
        | some unit =>
            rw [unitOf] at member
            obtain ⟨access, consumed, ofAccess⟩ := List.mem_flatMap.mp member
            obtain ⟨target, targetMember, material, materialMember, rfl⟩ :=
              mem_requests.mp ofAccess
            exact ⟨⟨itemAt, unitOf, consumed, targetMember, materialMember⟩, rfl⟩
  · rintro ⟨asks, rfl⟩
    rw [asks.item_at]
    dsimp only
    rw [asks.unit_of]
    refine List.mem_flatMap.mpr ⟨request.access, asks.consumed, ?_⟩
    exact mem_requests.mpr
      ⟨request.target, asks.target_mem, request.material, asks.material_mem, rfl⟩

theorem mem_agenda {resolver : Resolver} {graph : TaskGraph} {request : Request} :
    request ∈ resolver.agenda graph ↔ resolver.Asks graph request := by
  unfold agenda
  rw [List.mem_flatMap]
  constructor
  · rintro ⟨id, _, ofItem⟩
    exact (mem_requestsOf.mp ofItem).1
  · intro asks
    obtain ⟨_, fromUnit, _⟩ := Option.bind_eq_some_iff.mp asks.unit_of
    refine ⟨request.id, ?_, mem_requestsOf.mpr ⟨asks, rfl⟩⟩
    exact TaskGraph.mem_unitItems.mpr
      ⟨request.item, asks.item_at, WorkItem.isSend_eq_false_of_unit? fromUnit⟩

theorem pairwise_agenda (resolver : Resolver) (graph : TaskGraph) :
    (resolver.agenda graph).Pairwise fun earlier later => earlier.id ≤ later.id := by
  unfold agenda
  rw [List.pairwise_flatMap]
  constructor
  · intro id _
    refine List.pairwise_of_forall_mem_list fun left leftMember right rightMember => ?_
    exact Nat.le_of_eq
      ((mem_requestsOf.mp leftMember).2.trans (mem_requestsOf.mp rightMember).2.symm)
  · refine (graph.pairwise_itemsWhere _).imp fun before left leftMember right rightMember => ?_
    rw [(mem_requestsOf.mp leftMember).2, (mem_requestsOf.mp rightMember).2]
    exact Nat.le_of_lt before

/-- A request for a new value is served by a producer that is not the item
itself. -/
structure Takes (resolver : Resolver) (graph : TaskGraph) (request : Request)
    (producer : ProducerEntry) : Prop where
  asks : resolver.Asks graph request
  is_new : request.isNewLike = true
  found : producer ∈ resolver.producers request
  other : producer.item ≠ request.id

/-- Whatever serves a request is a candidate, and none is nearer. -/
theorem producers_spec
    {resolver : Resolver} {request : Request} {producer : ProducerEntry}
    (found : producer ∈ resolver.producers request) :
    producer ∈ resolver.index.candidates request.producerKey request.item.order ∧
      ∀ other ∈ resolver.index.candidates request.producerKey request.item.order,
        other.order ≤ producer.order := by
  unfold producers at found
  by_cases reduction : request.access.label.isReduction
  · rw [if_pos reduction] at found
    exact ProducerIndex.findAllProducers_spec found
  · rw [if_neg reduction, Option.mem_toList] at found
    exact ProducerIndex.findProducer?_spec found

theorem lastProducer?_eq_some_iff
    {resolver : Resolver} {request : Request} {producer : ProducerEntry} :
    resolver.lastProducer? request = some producer ↔
      (resolver.settings.iterative = true ∧ request.access.binding = .old) ∧
        resolver.index.findProducer? request.producerKey ProducerIndex.lastOrder =
          some producer := by
  unfold lastProducer?
  exact Option.ite_none_right_eq_some

/-- A candidate of an index that was recorded for a graph is one of its
items. -/
theorem exists_item_of_mem_candidates
    {units : List WorkUnit} {graph : TaskGraph} {key : ValueKey} {order : Nat}
    {entry : ProducerEntry}
    (found : entry ∈ ProducerIndex.candidates ⟨allRecordings units graph⟩ key order) :
    ∃ item, graph.item? entry.item = some item ∧ item.order = entry.order ∧
      entry.order < order := by
  obtain ⟨visible, before⟩ := ProducerIndex.mem_candidates.mp found
  obtain ⟨recorded, member⟩ := ProducerIndex.exists_recording_of_mem_visible visible
  obtain ⟨item, _, _, made⟩ := mem_allRecordings.mp member
  exact ⟨item, made.item_at, made.order_eq.symm, before⟩

/-- The edges that a resolution adds. -/
inductive Adds (resolver : Resolver) (graph : TaskGraph) (sendOf : Option RegionId → Nat) :
    Edge → Prop
  | data {request : Request} {producer : ProducerEntry}
      (takes : resolver.Takes graph request producer) :
      Adds resolver graph sendOf (request.edgeFrom producer.item .always)
  | ordering {read request : Request} {source producer : ProducerEntry}
      (reads : resolver.Takes graph read source)
      (only_reads : read.access.mode ≠ .modifies)
      (overwrites : resolver.Takes graph request producer)
      (modifies : request.access.mode = .modifies)
      (same_key : read.key = request.key)
      (same_source : source.item = producer.item)
      (before : read.id < request.id)
      (apart : resolver.isSibling request ⟨read.id, read.item.unit?, source.item⟩ = false) :
      Adds resolver graph sendOf (request.edgeAfter read.id)
  | send {request : Request}
      (asks : resolver.Asks graph request)
      (is_prior : ¬ request.isNewLike = true) :
      Adds resolver graph sendOf
        (request.edgeFrom (sendOf request.target.region?)
          (if (resolver.lastProducer? request).isSome then .firstIterationOnly else .always))
  | last {request : Request} {producer : ProducerEntry}
      (asks : resolver.Asks graph request)
      (is_prior : ¬ request.isNewLike = true)
      (found : resolver.lastProducer? request = some producer)
      (other : producer.item ≠ request.id) :
      Adds resolver graph sendOf (request.edgeFrom producer.item .subsequentIterationsOnly)

theorem mem_additions
    {resolver : Resolver} {sendOf : Option RegionId → Nat} {before requests : List Request}
    {edge : Edge} :
    edge ∈ resolver.additions sendOf before requests ↔
      ∃ served request rest, requests = served ++ request :: rest ∧
        edge ∈
          resolver.edgesFor sendOf ((before ++ served).flatMap resolver.reads) request := by
  induction requests generalizing before with
  | nil =>
      refine ⟨nofun, fun ⟨served, request, rest, whole, _⟩ => ?_⟩
      exact absurd whole.symm (List.append_ne_nil_of_right_ne_nil served (List.cons_ne_nil _ _))
  | cons head tail inductionHypothesis =>
      rw [additions, List.mem_append, inductionHypothesis]
      constructor
      · rintro (atHead | ⟨served, request, rest, rfl, inTail⟩)
        · refine ⟨[], head, tail, rfl, ?_⟩
          rwa [List.append_nil]
        · refine ⟨head :: served, request, rest, rfl, ?_⟩
          rwa [List.append_assoc] at inTail
      · rintro ⟨served, request, rest, whole, member⟩
        cases served with
        | nil =>
            cases whole
            rw [List.append_nil] at member
            exact Or.inl member
        | cons first served =>
            cases whole
            refine Or.inr ⟨served, request, rest, rfl, ?_⟩
            rwa [List.append_assoc]

theorem mem_reads
    {resolver : Resolver} {request : Request} {key : ValueKey} {reader : Reader} :
    (key, reader) ∈ resolver.reads request ↔
      request.isNewLike = true ∧ request.access.mode ≠ .modifies ∧ key = request.key ∧
        ∃ producer ∈ resolver.producers request, producer.item ≠ request.id ∧
          reader = ⟨request.id, request.item.unit?, producer.item⟩ := by
  unfold reads
  by_cases newLike : request.isNewLike = true
  · rw [if_pos newLike, List.mem_flatMap]
    constructor
    · rintro ⟨producer, found, ofProducer⟩
      unfold readsFrom at ofProducer
      by_cases leavesNone : producer.item = request.id ∨ request.access.mode = .modifies
      · rw [if_pos leavesNone] at ofProducer
        cases ofProducer
      · rw [if_neg leavesNone, List.mem_singleton] at ofProducer
        cases ofProducer
        exact ⟨newLike, fun modifies => leavesNone (Or.inr modifies), rfl, producer, found,
          fun itself => leavesNone (Or.inl itself), rfl⟩
    · rintro ⟨_, readsOnly, rfl, producer, found, other, rfl⟩
      refine ⟨producer, found, ?_⟩
      unfold readsFrom
      rw [if_neg fun either => either.elim other readsOnly]
      exact List.mem_cons_self
  · rw [if_neg newLike]
    exact ⟨nofun, fun both => absurd both.1 newLike⟩

theorem mem_orderings
    {resolver : Resolver} {history : List (ValueKey × Reader)} {request : Request}
    {producer : Nat} {edge : Edge} :
    edge ∈ resolver.orderings history request producer ↔
      ∃ reader, (request.key, reader) ∈ history ∧ reader.producer = producer ∧
        reader.item ≠ request.id ∧ resolver.isSibling request reader = false ∧
          edge = request.edgeAfter reader.item := by
  unfold orderings
  rw [List.mem_flatMap]
  constructor
  · intro found
    obtain ⟨reader, isEarlier, ofReader⟩ := found
    obtain ⟨⟨key, reader⟩, filtered, rfl⟩ := List.mem_map.mp isEarlier
    simp only [List.mem_filter, Bool.and_eq_true, decide_eq_true_eq] at filtered
    obtain ⟨member, ⟨rfl, sameProducer⟩, other⟩ := filtered
    by_cases sibling : resolver.isSibling request reader = true
    · rw [if_pos sibling] at ofReader
      cases ofReader
    · rw [if_neg sibling] at ofReader
      exact ⟨reader, member, sameProducer, other, Bool.eq_false_iff.mpr sibling,
        List.mem_singleton.mp ofReader⟩
  · intro found
    obtain ⟨reader, member, sameProducer, other, apart, rfl⟩ := found
    refine ⟨reader, List.mem_map.mpr ⟨(request.key, reader), ?_, rfl⟩, ?_⟩
    · simp only [List.mem_filter, Bool.and_eq_true, decide_eq_true_eq]
      exact ⟨member, ⟨trivial, sameProducer⟩, other⟩
    · rw [apart, if_neg Bool.false_ne_true]
      exact List.mem_singleton_self _

section

variable {resolver : Resolver} {graph : TaskGraph} {sendOf : Option RegionId → Nat}

/-- Where a request stands among all, and which requests stand before it. -/
private theorem exists_served
    {request : Request}
    (asks : resolver.Asks graph request) :
    ∃ served rest, resolver.agenda graph = served ++ request :: rest ∧
      (∀ earlier ∈ served, resolver.Asks graph earlier ∧ earlier.id ≤ request.id) ∧
        ∀ earlier, resolver.Asks graph earlier → earlier.id < request.id → earlier ∈ served := by
  obtain ⟨served, rest, whole⟩ := List.append_of_mem (mem_agenda.mpr asks)
  have ordered := resolver.pairwise_agenda graph
  rw [whole, List.pairwise_append, List.pairwise_cons] at ordered
  obtain ⟨_, ⟨restAfter, _⟩, servedBefore⟩ := ordered
  refine ⟨served, rest, whole, fun earlier member => ⟨?_, ?_⟩, fun earlier earlierAsks less => ?_⟩
  · exact mem_agenda.mp (whole ▸ List.mem_append_left _ member)
  · exact servedBefore earlier member request List.mem_cons_self
  · have member := mem_agenda.mpr earlierAsks
    rw [whole] at member
    rcases List.mem_append.mp member with inServed | inRest
    · exact inServed
    · exfalso
      rcases List.mem_cons.mp inRest with same | inRest
      · exact Nat.lt_irrefl _ (same ▸ less)
      · exact Nat.not_lt_of_le (restAfter earlier inRest) less

private theorem adds_of_mem_edgesFor
    {request : Request} {served : List Request} {edge : Edge}
    (asks : resolver.Asks graph request)
    (earlier : ∀ read ∈ served, resolver.Asks graph read ∧ read.id ≤ request.id)
    (member : edge ∈ resolver.edgesFor sendOf (served.flatMap resolver.reads) request) :
    resolver.Adds graph sendOf edge := by
  unfold edgesFor at member
  by_cases newLike : request.isNewLike = true
  · rw [if_pos newLike, List.mem_flatMap] at member
    obtain ⟨producer, found, ofProducer⟩ := member
    unfold edgesFrom at ofProducer
    by_cases itself : producer.item = request.id
    · rw [if_pos itself] at ofProducer
      cases ofProducer
    · have takes : resolver.Takes graph request producer := ⟨asks, newLike, found, itself⟩
      rw [if_neg itself] at ofProducer
      rcases List.mem_cons.mp ofProducer with same | ofReaders
      · exact same ▸ .data takes
      · by_cases modifies : request.access.mode = .modifies
        · rw [if_pos modifies, mem_orderings] at ofReaders
          obtain ⟨reader, inHistory, sameProducer, other, apart, rfl⟩ := ofReaders
          obtain ⟨read, readServed, ofRead⟩ := List.mem_flatMap.mp inHistory
          obtain ⟨readNew, readsOnly, sameKey, source, readFound, readOther, rfl⟩ :=
            mem_reads.mp ofRead
          obtain ⟨readAsks, atMost⟩ := earlier read readServed
          exact .ordering ⟨readAsks, readNew, readFound, readOther⟩ readsOnly takes modifies
            sameKey.symm sameProducer (Nat.lt_of_le_of_ne atMost other) apart
        · rw [if_neg modifies] at ofReaders
          cases ofReaders
  · rw [if_neg newLike] at member
    have send : resolver.Adds graph sendOf _ := .send asks newLike
    unfold priorEdges at member
    cases last : resolver.lastProducer? request with
    | none =>
        rw [last] at member send
        exact List.mem_singleton.mp member ▸ send
    | some producer =>
        rw [last] at member send
        rcases List.mem_cons.mp member with same | ofLast
        · exact same ▸ send
        · by_cases itself : producer.item = request.id
          · rw [if_pos itself] at ofLast
            cases ofLast
          · rw [if_neg itself] at ofLast
            exact List.mem_singleton.mp ofLast ▸ .last asks newLike last itself

/-- What is added for some of the requests, in their order, is added for a
reason. -/
theorem adds_of_mem_additions
    {requests : List Request} {edge : Edge}
    (asks : ∀ request ∈ requests, resolver.Asks graph request)
    (ordered : requests.Pairwise fun earlier later => earlier.id ≤ later.id)
    (member : edge ∈ resolver.additions sendOf [] requests) :
    resolver.Adds graph sendOf edge := by
  obtain ⟨served, request, rest, rfl, ofRequest⟩ := mem_additions.mp member
  rw [List.nil_append] at ofRequest
  rw [List.pairwise_append] at ordered
  refine adds_of_mem_edgesFor ?_ (fun read readServed => ⟨?_, ?_⟩) ofRequest
  · exact asks request (by simp)
  · exact asks read (by simp [readServed])
  · exact ordered.2.2 read readServed request List.mem_cons_self

/-- A request for an earlier generation is served by a send item. -/
theorem send_mem_edgesFor
    {request : Request}
    (prior : ¬ request.isNewLike = true)
    (history : List (ValueKey × Reader)) :
    request.edgeFrom (sendOf request.target.region?)
        (if (resolver.lastProducer? request).isSome then .firstIterationOnly else .always) ∈
      resolver.edgesFor sendOf history request := by
  rw [edgesFor, if_neg prior, priorEdges]
  cases resolver.lastProducer? request with
  | none => exact List.mem_cons_self
  | some producer => exact List.mem_cons_self

/-- A resolution adds an edge exactly for one of the reasons that `Adds`
lists. -/
theorem mem_additions_iff_adds {edge : Edge} :
    edge ∈ resolver.additions sendOf [] (resolver.agenda graph) ↔
      resolver.Adds graph sendOf edge := by
  constructor
  · apply adds_of_mem_additions
    · exact fun _ => mem_agenda.mp
    · exact resolver.pairwise_agenda graph
  · intro adds
    have serves :
        ∀ {request : Request}, resolver.Asks graph request →
          (∀ served : List Request,
            (∀ earlier, resolver.Asks graph earlier → earlier.id < request.id →
              earlier ∈ served) →
            edge ∈ resolver.edgesFor sendOf (served.flatMap resolver.reads) request) →
          ∃ served request rest, resolver.agenda graph = served ++ request :: rest ∧
            edge ∈ resolver.edgesFor sendOf (([] ++ served).flatMap resolver.reads) request := by
      intro request asks member
      obtain ⟨served, rest, whole, _, complete⟩ := exists_served asks
      exact ⟨served, request, rest, whole, member served complete⟩
    rw [mem_additions]
    cases adds with
    | @data request producer takes =>
        refine serves takes.asks fun served _ => ?_
        rw [edgesFor, if_pos takes.is_new, List.mem_flatMap]
        refine ⟨producer, takes.found, ?_⟩
        rw [edgesFrom, if_neg takes.other]
        exact List.mem_cons_self
    | @ordering read request source producer reads readsOnly overwrites modifies sameKey sameSource
        before apart =>
        refine serves overwrites.asks fun served complete => ?_
        rw [edgesFor, if_pos overwrites.is_new, List.mem_flatMap]
        refine ⟨producer, overwrites.found, ?_⟩
        rw [edgesFrom, if_neg overwrites.other, if_pos modifies]
        refine List.mem_cons_of_mem _ (mem_orderings.mpr ?_)
        refine ⟨⟨read.id, read.item.unit?, source.item⟩, ?_, sameSource, Nat.ne_of_lt before,
          apart, rfl⟩
        refine List.mem_flatMap.mpr ⟨read, complete read reads.asks before, mem_reads.mpr ?_⟩
        exact ⟨reads.is_new, readsOnly, sameKey.symm, source, reads.found, reads.other, rfl⟩
    | @send request asks prior =>
        exact serves asks fun served _ => send_mem_edgesFor prior _
    | @last request producer asks prior found other =>
        refine serves asks fun served _ => ?_
        rw [edgesFor, if_neg prior, priorEdges, found]
        dsimp only
        rw [if_neg other]
        exact List.mem_cons_of_mem _ List.mem_cons_self

end

end Resolver

end MeshTasks
