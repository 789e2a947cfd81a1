import Mathlib.Data.List.Induction
import Mathlib.Data.List.Nodup
import MeshTasks.Proofs.Graph.Gather
import MeshTasks.Proofs.Resolution.Requests
import MeshTasks.Proofs.Selection

/-!
# What a resolution adds

Serving a request adds edges, and these are known from the request and from the
reads before it. The reads before it are known from the earlier requests. So
everything that a resolution leaves can be written down from its list of
requests: `Reached` does so, and holds of every resolution on its way through
the list.
-/

namespace MeshTasks

namespace Resolver

/-- The reads that serving a request from one producer leaves behind. -/
def readsFrom (request : Request) (producer : ProducerEntry) : List (ValueKey × Reader) :=
  if producer.item = request.id ∨ request.access.mode = .modifies then
    []
  else
    [(request.key, ⟨request.id, request.item.unit?, producer.item⟩)]

/-- Whether a reader belongs to the unit of the item that asks, and this unit is
spread over regions; such a reader is not waited for. -/
def isSibling (resolver : Resolver) (request : Request) (reader : Reader) : Bool :=
  decide (reader.unit.isSome ∧ reader.unit = request.item.unit? ∧
    resolver.isPerRegion request.item)

/-- The edges that keep a modification behind the reads of a producer's
value. -/
def orderings (resolver : Resolver) (history : List (ValueKey × Reader)) (request : Request)
    (producer : Nat) : List Edge :=
  let earlier := history.filter fun (key, reader) =>
    decide (key = request.key) && decide (reader.producer = producer) &&
      decide (reader.item ≠ request.id)
  (earlier.map Prod.snd).flatMap fun reader =>
    if resolver.isSibling request reader then [] else [request.edgeAfter reader.item]

/-- The edges by which a request is served from one producer. -/
def edgesFrom (resolver : Resolver) (history : List (ValueKey × Reader)) (request : Request)
    (producer : ProducerEntry) : List Edge :=
  if producer.item = request.id then
    []
  else
    request.edgeFrom producer.item .always ::
      if request.access.mode = .modifies then
        resolver.orderings history request producer.item
      else
        []

/-- The edges by which a request for an earlier generation is served, given its
send item. -/
def priorEdges (resolver : Resolver) (send : Nat) (request : Request) : List Edge :=
  match resolver.lastProducer? request with
  | none => [request.edgeFrom send .always]
  | some producer =>
      request.edgeFrom send .firstIterationOnly ::
        if producer.item = request.id then
          []
        else
          [request.edgeFrom producer.item .subsequentIterationsOnly]

/-- The edges by which a request is served. -/
def edgesFor (resolver : Resolver) (sendOf : Option RegionId → Nat)
    (history : List (ValueKey × Reader)) (request : Request) : List Edge :=
  if request.isNewLike then
    (resolver.producers request).flatMap (resolver.edgesFrom history request)
  else
    resolver.priorEdges (sendOf request.target.region?) request

/-- The reads that a request leaves behind: one for each producer of a new
value. -/
def reads (resolver : Resolver) (request : Request) : List (ValueKey × Reader) :=
  if request.isNewLike then
    (resolver.producers request).flatMap (readsFrom request)
  else
    []

/-- The edges that are added for the requests of a list when others came
before. -/
def additions (resolver : Resolver) (sendOf : Option RegionId → Nat) :
    List Request → List Request → List Edge
  | _, [] => []
  | before, request :: rest =>
      resolver.edgesFor sendOf (before.flatMap resolver.reads) request ++
        resolver.additions sendOf (before ++ [request]) rest

/-- The regions after one more request, in the order in which their send items
are made. -/
def addSupplier (suppliers : List (Option RegionId)) (request : Request) :
    List (Option RegionId) :=
  if request.isNewLike ∨ request.target.region? ∈ suppliers then
    suppliers
  else
    suppliers ++ [request.target.region?]

/-- The regions that some requests need send items of, in the order of first
use. -/
def suppliers (requests : List Request) : List (Option RegionId) :=
  requests.foldl addSupplier []

/-- The send item of a region. -/
def sendItem (resolver : Resolver) (region : Option RegionId) : WorkItem where
  origin := .priorGeneration
  name := sendName
  regions := region.toList
  materials := none
  process := resolver.placement.assign region.toList
  order := 0
  phase := none

end Resolver

/-- A state gains edges and reads, and nothing else but warnings. -/
structure Resolution.Gains (state : Resolution) (edges : List Edge)
    (reads : List (ValueKey × Reader)) (next : Resolution) : Prop where
  items_eq : next.graph.items = state.graph.items
  edges_eq : next.graph.edges = Edge.gather state.graph.edges edges
  sends_eq : next.sends = state.sends
  readers_eq : next.readers = state.readers ++ reads

namespace Resolution.Gains

variable {state middle next : Resolution}

theorem refl (state : Resolution) : state.Gains [] [] state where
  items_eq := rfl
  edges_eq := rfl
  sends_eq := rfl
  readers_eq := (List.append_nil _).symm

theorem trans
    {edges moreEdges : List Edge} {reads moreReads : List (ValueKey × Reader)}
    (first : state.Gains edges reads middle)
    (second : middle.Gains moreEdges moreReads next) :
    state.Gains (edges ++ moreEdges) (reads ++ moreReads) next where
  items_eq := second.items_eq.trans first.items_eq
  edges_eq := by rw [second.edges_eq, first.edges_eq, Edge.gather_append]
  sends_eq := second.sends_eq.trans first.sends_eq
  readers_eq := by rw [second.readers_eq, first.readers_eq, List.append_assoc]

theorem addEdge (state : Resolution) (edge : Edge) :
    state.Gains [edge] [] (state.addEdge edge) where
  items_eq := rfl
  edges_eq := rfl
  sends_eq := rfl
  readers_eq := (List.append_nil _).symm

/-- What the steps of a fold gain adds up, if each step keeps what its gains
depend on. -/
private theorem foldl
    {α : Type} {step : Resolution → α → Resolution} {edges : α → List Edge}
    {reads : α → List (ValueKey × Reader)} (Keeps : Resolution → Prop)
    (step_gains : ∀ state value, Keeps state →
      state.Gains (edges value) (reads value) (step state value) ∧ Keeps (step state value))
    (values : List α) (state : Resolution) (kept : Keeps state) :
    state.Gains (values.flatMap edges) (values.flatMap reads) (values.foldl step state) := by
  induction values generalizing state with
  | nil => exact refl state
  | cons head tail inductionHypothesis =>
      obtain ⟨headGains, headKept⟩ := step_gains state head kept
      exact headGains.trans (inductionHypothesis (step state head) headKept)

end Resolution.Gains

namespace Resolver

theorem gains_orderAfter
    (resolver : Resolver) (request : Request) (state : Resolution) (reader : Reader) :
    state.Gains (if resolver.isSibling request reader then [] else [request.edgeAfter reader.item])
      [] (resolver.orderAfter request state reader) := by
  unfold orderAfter
  by_cases sibling :
      reader.unit.isSome ∧ reader.unit = request.item.unit? ∧ resolver.isPerRegion request.item
  · rw [if_pos sibling, isSibling, decide_eq_true sibling, if_pos rfl]
    by_cases warned : resolver.settings.warnSameUnitModify ∧ state.warnings.isEmpty
    · rw [if_pos warned]
      exact ⟨rfl, rfl, rfl, (List.append_nil _).symm⟩
    · rw [if_neg warned]
      exact .refl state
  · rw [if_neg sibling, isSibling, decide_eq_false sibling, if_neg Bool.false_ne_true]
    exact .addEdge state _

theorem gains_orderAfterReaders
    (resolver : Resolver) (request : Request) (state : Resolution) (producer : Nat) :
    state.Gains (resolver.orderings state.readers request producer) []
      (resolver.orderAfterReaders request state producer) := by
  let earlier := (state.readers.filter fun (key, reader) =>
    decide (key = request.key) && decide (reader.producer = producer) &&
      decide (reader.item ≠ request.id)).map Prod.snd
  have gains :=
    Resolution.Gains.foldl (fun _ => True)
      (fun current reader _ => ⟨gains_orderAfter resolver request current reader, trivial⟩)
      earlier state trivial
  have noReads : earlier.flatMap (fun _ => ([] : List (ValueKey × Reader))) = [] :=
    List.flatMap_eq_nil_iff.mpr fun _ _ => rfl
  rwa [noReads] at gains

theorem gains_follow
    (resolver : Resolver) (request : Request) (state : Resolution) (producer : ProducerEntry) :
    state.Gains (resolver.edgesFrom state.readers request producer) (readsFrom request producer)
      (resolver.follow request state producer) := by
  unfold edgesFrom readsFrom follow
  by_cases itself : producer.item = request.id
  · rw [if_pos itself, if_pos itself, if_pos (Or.inl itself)]
    exact .refl state
  · rw [if_neg itself, if_neg itself]
    have linked := Resolution.Gains.addEdge state (request.edgeFrom producer.item .always)
    by_cases modifying : request.access.mode = .modifies
    · rw [if_pos modifying, if_pos (Or.inr modifying)]
      dsimp only
      rw [if_pos modifying]
      exact linked.trans (gains_orderAfterReaders resolver request _ producer.item)
    · rw [if_neg modifying, if_neg fun either => either.elim itself modifying]
      dsimp only
      rw [if_neg modifying]
      exact ⟨rfl, rfl, rfl, rfl⟩

/-- Reads are left by those who read only, and edges depend on reads for those
who modify only, so that what the producers of one request add does not depend
on each other. -/
private theorem gains_foldl_follow
    (resolver : Resolver) (request : Request) (state : Resolution)
    (producers : List ProducerEntry) :
    state.Gains (producers.flatMap (resolver.edgesFrom state.readers request))
      (producers.flatMap (readsFrom request))
      (producers.foldl (resolver.follow request) state) := by
  refine Resolution.Gains.foldl
    (fun current => request.access.mode = .modifies → current.readers = state.readers)
    ?_ producers state fun _ => rfl
  intro current producer kept
  have gains := gains_follow resolver request current producer
  have sameEdges :
      resolver.edgesFrom current.readers request producer =
        resolver.edgesFrom state.readers request producer := by
    unfold edgesFrom
    by_cases modifying : request.access.mode = .modifies
    · rw [kept modifying]
    · rw [if_neg modifying, if_neg modifying]
  refine ⟨sameEdges ▸ gains, fun modifying => ?_⟩
  rw [gains.readers_eq, readsFrom, if_pos (Or.inr modifying), List.append_nil]
  exact kept modifying

/-- The place of the send item of a region: send items follow all others, in the
order in which they are first asked for. -/
def sendPlace (graph : TaskGraph) (requests : List Request) (region : Option RegionId) : Nat :=
  graph.items.length + (suppliers requests).idxOf region

private theorem suppliers_concat (requests : List Request) (request : Request) :
    suppliers (requests ++ [request]) = addSupplier (suppliers requests) request := by
  unfold suppliers
  rw [List.foldl_append, List.foldl_cons, List.foldl_nil]

private theorem additions_append
    (resolver : Resolver) (sendOf : Option RegionId → Nat) (before first second : List Request) :
    resolver.additions sendOf before (first ++ second) =
      resolver.additions sendOf before first ++
        resolver.additions sendOf (before ++ first) second := by
  induction first generalizing before with
  | nil =>
      rw [List.append_nil]
      rfl
  | cons head tail inductionHypothesis =>
      rw [List.cons_append, additions, additions, inductionHypothesis, List.append_assoc,
        List.append_assoc, List.singleton_append]

private theorem isPrefix_suppliers (requests more : List Request) :
    suppliers requests <+: suppliers (requests ++ more) := by
  induction more using List.reverseRecOn with
  | nil =>
      rewrite [List.append_nil]
      exact List.prefix_rfl
  | append_singleton more request inductionHypothesis =>
      rw [← List.append_assoc, suppliers_concat, addSupplier]
      by_cases known : request.isNewLike ∨ request.target.region? ∈ suppliers (requests ++ more)
      · rw [if_pos known]
        exact inductionHypothesis
      · rw [if_neg known]
        exact inductionHypothesis.trans (List.prefix_append _ _)

theorem mem_suppliers
    {requests : List Request} {request : Request}
    (member : request ∈ requests)
    (prior : ¬ request.isNewLike = true) :
    request.target.region? ∈ suppliers requests := by
  obtain ⟨before, after, rfl⟩ := List.append_of_mem member
  rw [← List.singleton_append, ← List.append_assoc]
  apply (isPrefix_suppliers (before ++ [request]) after).subset
  rw [suppliers_concat, addSupplier]
  by_cases known : request.target.region? ∈ suppliers before
  · rwa [if_pos (Or.inr known)]
  · rw [if_neg fun either => either.elim prior known]
    exact List.mem_append_right _ List.mem_cons_self

theorem nodup_suppliers (requests : List Request) : (suppliers requests).Nodup := by
  induction requests using List.reverseRecOn with
  | nil => exact List.nodup_nil
  | append_singleton requests request inductionHypothesis =>
      rw [suppliers_concat, addSupplier]
      by_cases known : request.isNewLike ∨ request.target.region? ∈ suppliers requests
      · rw [if_pos known]
        exact inductionHypothesis
      · rw [if_neg known]
        have fresh : request.target.region? ∉ suppliers requests :=
          fun member => known (Or.inr member)
        refine List.nodup_append.mpr ⟨inductionHypothesis, List.nodup_singleton _, ?_⟩
        intro region member other atEnd same
        rw [List.mem_singleton] at atEnd
        exact fresh (atEnd ▸ same ▸ member)

/-- Send items are needed only where something of an earlier generation is asked
for. -/
theorem exists_request_of_mem_suppliers
    {requests : List Request} {region : Option RegionId}
    (member : region ∈ suppliers requests) :
    ∃ request ∈ requests, ¬ request.isNewLike = true ∧ request.target.region? = region := by
  induction requests using List.reverseRecOn with
  | nil => cases member
  | append_singleton requests request inductionHypothesis =>
      have carried : region ∈ suppliers requests →
          ∃ earlier ∈ requests ++ [request],
            ¬ earlier.isNewLike = true ∧ earlier.target.region? = region := by
        intro known
        obtain ⟨earlier, earlierMember, prior, regionEq⟩ := inductionHypothesis known
        exact ⟨earlier, List.mem_append_left _ earlierMember, prior, regionEq⟩
      rw [suppliers_concat, addSupplier] at member
      by_cases known : request.isNewLike ∨ request.target.region? ∈ suppliers requests
      · rw [if_pos known] at member
        exact carried member
      · rw [if_neg known] at member
        rcases List.mem_append.mp member with inSuppliers | atEnd
        · exact carried inSuppliers
        · refine ⟨request, List.mem_append_right _ List.mem_cons_self, ?_, ?_⟩
          · exact fun newLike => known (Or.inl newLike)
          · exact (List.mem_singleton.mp atEnd).symm

/-- The state holds send items for some regions, and knows their places. -/
structure Supplied (resolver : Resolver) (graph : TaskGraph) (known : List (Option RegionId))
    (state : Resolution) : Prop where
  items_eq : state.graph.items = graph.items ++ known.map resolver.sendItem
  sends_eq : state.sends = known.zipIdx graph.items.length

/-- What a state is to the requests served so far. -/
structure Reached (resolver : Resolver) (graph : TaskGraph) (sendOf : Option RegionId → Nat)
    (served : List Request) (state : Resolution) : Prop
    extends Supplied resolver graph (suppliers served) state where
  edges_eq : state.graph.edges = Edge.gather graph.edges (resolver.additions sendOf [] served)
  readers_eq : state.readers = served.flatMap resolver.reads

namespace Supplied

variable {resolver : Resolver} {graph : TaskGraph} {known : List (Option RegionId)}
  {state : Resolution}

theorem item?_of_lt
    (supplied : resolver.Supplied graph known state)
    {id : Nat}
    (bound : id < graph.items.length) :
    state.graph.item? id = graph.item? id := by
  simp only [TaskGraph.item?, supplied.items_eq, List.getElem?_append_left bound]

theorem item?_idxOf
    (supplied : resolver.Supplied graph known state)
    {region : Option RegionId}
    (member : region ∈ known) :
    state.graph.item? (graph.items.length + known.idxOf region) =
      some (resolver.sendItem region) := by
  have bound := List.idxOf_lt_length_of_mem member
  rw [TaskGraph.item?, supplied.items_eq, List.getElem?_append_right (Nat.le_add_right _ _),
    Nat.add_sub_cancel_left, List.getElem?_map, List.getElem?_eq_getElem bound,
    List.getElem_idxOf bound, Option.map_some]

/-- The items behind those of the units are send items. -/
theorem exists_known
    (supplied : resolver.Supplied graph known state)
    (distinct : known.Nodup)
    {id : Nat} {item : WorkItem}
    (behind : graph.items.length ≤ id)
    (itemAt : state.graph.item? id = some item) :
    ∃ region ∈ known, id = graph.items.length + known.idxOf region ∧
      item = resolver.sendItem region := by
  rw [TaskGraph.item?, supplied.items_eq, List.getElem?_append_right behind,
    List.getElem?_map] at itemAt
  obtain ⟨region, regionAt, itemEq⟩ := Option.map_eq_some_iff.mp itemAt
  obtain ⟨bound, rfl⟩ := List.getElem?_eq_some_iff.mp regionAt
  refine ⟨_, List.getElem_mem bound, ?_, itemEq.symm⟩
  rw [distinct.idxOf_getElem _ bound]
  omega

end Supplied

private theorem supplied_sendFor
    {resolver : Resolver} {graph : TaskGraph} {known : List (Option RegionId)}
    {state : Resolution}
    (supplied : resolver.Supplied graph known state)
    {request : Request}
    (prior : ¬ request.isNewLike = true) :
    ∃ next,
      state.sendFor resolver.placement request.target.region? =
          (next,
            graph.items.length + (addSupplier known request).idxOf request.target.region?) ∧
        resolver.Supplied graph (addSupplier known request) next ∧
          next.graph.edges = state.graph.edges ∧ next.readers = state.readers := by
  unfold Resolution.sendFor addSupplier
  by_cases present : request.target.region? ∈ known
  · rw [if_pos (Or.inr present)]
    refine ⟨state, ?_, supplied, rfl, rfl⟩
    rw [supplied.sends_eq, lookup_zipIdx_of_mem _ present]
  · have unknown : state.sends.lookup request.target.region? = none := by
      rw [supplied.sends_eq, List.lookup_eq_none_iff]
      intro pair member
      rw [bne_iff_ne]
      exact fun same => present (same ▸ List.fst_mem_of_mem_zipIdx member)
    rw [if_neg fun either => either.elim prior present, unknown]
    refine ⟨_, Prod.ext rfl ?_, ⟨?_, ?_⟩, rfl, rfl⟩
    · show state.graph.items.length = _
      rw [supplied.items_eq, List.length_append, List.length_map, List.idxOf_append,
        if_neg present, List.idxOf_cons_self, Nat.zero_add]
    · show state.graph.items ++ [resolver.sendItem request.target.region?] = _
      rw [supplied.items_eq, List.map_append, List.append_assoc]
      rfl
    · show state.sends ++ [(request.target.region?, state.graph.items.length)] = _
      rw [supplied.sends_eq, supplied.items_eq, List.zipIdx_append, List.length_append,
        List.length_map]
      rfl

/-- Serving a request for an earlier generation adds its send item, if that is
missing, and its edges. -/
theorem servePrior_spec
    {resolver : Resolver} {graph : TaskGraph} {known : List (Option RegionId)}
    {state : Resolution}
    (supplied : resolver.Supplied graph known state)
    {request : Request}
    (prior : ¬ request.isNewLike = true) :
    resolver.Supplied graph (addSupplier known request) (resolver.servePrior state request) ∧
      (resolver.servePrior state request).readers = state.readers ∧
        (resolver.servePrior state request).graph.edges =
          Edge.gather state.graph.edges
            (resolver.priorEdges
              (graph.items.length + (addSupplier known request).idxOf request.target.region?)
              request) := by
  obtain ⟨next, nextEq, nextSupplied, edgesEq, readersEq⟩ := supplied_sendFor supplied prior
  unfold servePrior priorEdges
  rw [nextEq, ← edgesEq, ← readersEq]
  dsimp only
  cases resolver.lastProducer? request with
  | none => exact ⟨⟨nextSupplied.items_eq, nextSupplied.sends_eq⟩, rfl, rfl⟩
  | some producer =>
      dsimp only
      by_cases itself : producer.item = request.id
      · rw [if_pos itself, if_pos itself]
        exact ⟨⟨nextSupplied.items_eq, nextSupplied.sends_eq⟩, rfl, rfl⟩
      · rw [if_neg itself, if_neg itself]
        exact ⟨⟨nextSupplied.items_eq, nextSupplied.sends_eq⟩, rfl, rfl⟩

private theorem Reached.advance
    {resolver : Resolver} {graph : TaskGraph} {sendOf : Option RegionId → Nat}
    {served : List Request} {state : Resolution}
    (reached : resolver.Reached graph sendOf served state)
    {request : Request}
    (placed : ¬ request.isNewLike = true →
      sendOf request.target.region? =
        sendPlace graph (served ++ [request]) request.target.region?) :
    resolver.Reached graph sendOf (served ++ [request]) (resolver.advance state request) := by
  have added :
      resolver.additions sendOf [] (served ++ [request]) =
        resolver.additions sendOf [] served ++
          resolver.edgesFor sendOf state.readers request := by
    rw [additions_append, reached.readers_eq, additions, additions, List.append_nil,
      List.nil_append]
  have readsEq :
      (served ++ [request]).flatMap resolver.reads =
        state.readers ++ resolver.reads request := by
    rw [List.flatMap_append, List.flatMap_singleton, reached.readers_eq]
  unfold Resolver.advance
  by_cases newLike : request.isNewLike = true
  · have gains := gains_foldl_follow resolver request state (resolver.producers request)
    have sameSuppliers : suppliers (served ++ [request]) = suppliers served := by
      rw [suppliers_concat, addSupplier, if_pos (Or.inl newLike)]
    rw [if_pos newLike]
    refine ⟨⟨?_, ?_⟩, ?_, ?_⟩
    · rw [gains.items_eq, reached.items_eq, sameSuppliers]
    · rw [gains.sends_eq, reached.sends_eq, sameSuppliers]
    · rw [gains.edges_eq, added, Edge.gather_append, reached.edges_eq, edgesFor, if_pos newLike]
    · rw [gains.readers_eq, readsEq, reads, if_pos newLike]
  · obtain ⟨supplied, readersEq, edgesEq⟩ := servePrior_spec reached.toSupplied newLike
    rw [if_neg newLike]
    refine ⟨?_, ?_, ?_⟩
    · rw [suppliers_concat]
      exact supplied
    · rw [edgesEq, added, Edge.gather_append, reached.edges_eq, edgesFor, if_neg newLike,
        placed newLike, sendPlace, suppliers_concat]
    · rw [readersEq, readsEq, reads, if_neg newLike, List.append_nil]

/-- A resolution that has served a list of requests is what `Reached` says of
that list. -/
theorem reached_foldl
    {resolver : Resolver} {graph : TaskGraph} (requests : List Request) :
    resolver.Reached graph (sendPlace graph requests) requests
      (requests.foldl resolver.advance (.start graph)) := by
  -- The places of send items are those at the end, and hold from the first use on.
  have onTheWay :
      ∀ served rest, requests = served ++ rest →
        resolver.Reached graph (sendPlace graph requests) served
          (served.foldl resolver.advance (.start graph)) := by
    intro served
    induction served using List.reverseRecOn with
    | nil =>
        intro rest _
        exact ⟨⟨(List.append_nil _).symm, rfl⟩, rfl, rfl⟩
    | append_singleton served request inductionHypothesis =>
        intro rest whole
        rw [List.foldl_append, List.foldl_cons, List.foldl_nil]
        apply Reached.advance
        · exact inductionHypothesis (request :: rest) (by rw [whole, List.append_assoc]; rfl)
        · intro prior
          have member : request.target.region? ∈ suppliers (served ++ [request]) :=
            mem_suppliers (List.mem_append_right served List.mem_cons_self) prior
          unfold sendPlace
          rw [whole, (isPrefix_suppliers (served ++ [request]) rest).idxOf_eq_of_mem member]
  exact onTheWay requests [] (List.append_nil requests).symm

end Resolver

end MeshTasks
