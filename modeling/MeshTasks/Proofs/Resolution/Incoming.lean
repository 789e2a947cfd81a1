import MeshTasks.Proofs.Compilation
import MeshTasks.Proofs.Selection

/-!
# The edges into an item

The edges into an item come of its own requests. How one of them is served
depends on the readers of the value that it overwrites, and these are items
before it. So the edges into an item can be written down from its requests and
from those of the items before it, without regard to all others.
-/

namespace MeshTasks

namespace Resolver

/-- Whether a read is one of a producer's value that a request overwrites. -/
def isOverwritten (request : Request) (producer : Nat) (read : ValueKey × Reader) : Bool :=
  decide (read.1 = request.key) && decide (read.2.producer = producer) &&
    decide (read.2.item ≠ request.id)

/-- The edges to a request from the readers among some reads. -/
def edgesAfter (resolver : Resolver) (request : Request) (reads : List (ValueKey × Reader)) :
    List Edge :=
  (reads.map Prod.snd).flatMap fun reader =>
    if resolver.isSibling request reader then [] else [request.edgeAfter reader.item]

theorem orderings_eq
    (resolver : Resolver) (history : List (ValueKey × Reader)) (request : Request)
    (producer : Nat) :
    resolver.orderings history request producer =
      resolver.edgesAfter request (history.filter (isOverwritten request producer)) :=
  rfl

/-- Of the reads so far only those of values that a request overwrites matter to
it. -/
private theorem edgesFor_congr
    {resolver : Resolver} {sendOf : Option RegionId → Nat} {request : Request}
    {history other : List (ValueKey × Reader)}
    (same : ∀ producer,
      history.filter (isOverwritten request producer) =
        other.filter (isOverwritten request producer)) :
    resolver.edgesFor sendOf history request = resolver.edgesFor sendOf other request := by
  have sameFrom : resolver.edgesFrom history request = resolver.edgesFrom other request := by
    funext producer
    unfold edgesFrom
    rw [orderings_eq, orderings_eq, same]
  unfold edgesFor
  rw [sameFrom]

/-- The reads that the requests of items before a place leave behind. -/
def readsBefore (resolver : Resolver) (requests : List Request) (id : Nat) :
    List (ValueKey × Reader) :=
  (requests.filter fun request => decide (request.id < id)).flatMap resolver.reads

/-- The edges by which a request of a list is served. -/
def edgesAmong (resolver : Resolver) (sendOf : Option RegionId → Nat) (requests : List Request)
    (request : Request) : List Edge :=
  resolver.edgesFor sendOf (resolver.readsBefore requests request.id) request

private theorem filter_reads_of_same_item
    {resolver : Resolver} {request read : Request}
    (sameItem : read.id = request.id)
    (producer : Nat) :
    (resolver.reads read).filter (isOverwritten request producer) = [] := by
  rw [List.filter_eq_nil_iff]
  intro found member overwritten
  obtain ⟨_, _, _, _, _, _, readerEq⟩ := mem_reads.mp (Prod.eta found ▸ member)
  have otherItem := of_decide_eq_true (Bool.and_eq_true_iff.mp overwritten).2
  rw [readerEq] at otherItem
  exact otherItem sameItem

theorem filter_reads_of_other_key
    {resolver : Resolver} {request read : Request}
    (otherKey : read.key ≠ request.key)
    (producer : Nat) :
    (resolver.reads read).filter (isOverwritten request producer) = [] := by
  rw [List.filter_eq_nil_iff]
  intro found member overwritten
  obtain ⟨_, _, foundKey, _⟩ := mem_reads.mp (Prod.eta found ▸ member)
  have conditions := (Bool.and_eq_true_iff.mp overwritten).1
  have keyEq := of_decide_eq_true (Bool.and_eq_true_iff.mp conditions).1
  exact otherKey (foundKey.symm.trans keyEq)

/-- To a request the reads before it are those of items before its own. -/
private theorem filter_reads_before
    {resolver : Resolver} {before rest : List Request} {request : Request}
    (ordered : (before ++ request :: rest).Pairwise fun earlier later => earlier.id ≤ later.id)
    (producer : Nat) :
    (before.flatMap resolver.reads).filter (isOverwritten request producer) =
      (resolver.readsBefore (before ++ request :: rest) request.id).filter
        (isOverwritten request producer) := by
  obtain ⟨_, restOrdered, across⟩ := List.pairwise_append.mp ordered
  have atLeast : ∀ later ∈ request :: rest, ¬ decide (later.id < request.id) = true := by
    intro later member
    rw [decide_eq_true_eq, Nat.not_lt]
    rcases List.mem_cons.mp member with same | inRest
    · exact Nat.le_of_eq (congrArg Request.id same.symm)
    · exact (List.pairwise_cons.mp restOrdered).1 later inRest
  unfold readsBefore
  rw [List.filter_append, List.filter_eq_nil_iff.mpr atLeast, List.append_nil,
    List.filter_flatMap, List.filter_flatMap]
  symm
  apply flatMap_filter_of_nil
  intro read member notLower
  apply filter_reads_of_same_item
  have atMost := across read member request List.mem_cons_self
  have atLeastHere := of_decide_eq_false notLower
  omega

/-- What is added for the requests of a list, request by request. -/
theorem additions_eq_flatMap
    {resolver : Resolver} {sendOf : Option RegionId → Nat} {requests : List Request}
    (ordered : requests.Pairwise fun earlier later => earlier.id ≤ later.id) :
    resolver.additions sendOf [] requests =
      requests.flatMap (resolver.edgesAmong sendOf requests) := by
  have onTheWay :
      ∀ rest before, requests = before ++ rest →
        resolver.additions sendOf before rest =
          rest.flatMap (resolver.edgesAmong sendOf requests) := by
    intro rest
    induction rest with
    | nil => exact fun _ _ => rfl
    | cons request rest inductionHypothesis =>
        intro before whole
        have wholeAfter : requests = before ++ [request] ++ rest := by
          rw [whole, List.append_assoc, List.singleton_append]
        have sameEdges :
            resolver.edgesFor sendOf (before.flatMap resolver.reads) request =
              resolver.edgesAmong sendOf requests request := by
          apply edgesFor_congr
          rw [whole] at ordered ⊢
          exact filter_reads_before ordered
        rw [additions, sameEdges, inductionHypothesis (before ++ [request]) wholeAfter,
          List.flatMap_cons]
  exact onTheWay requests [] rfl

private theorem consumer_of_mem_edgesFor
    {resolver : Resolver} {sendOf : Option RegionId → Nat}
    {history : List (ValueKey × Reader)} {request : Request} {edge : Edge}
    (member : edge ∈ resolver.edgesFor sendOf history request) :
    edge.consumer = request.id := by
  unfold edgesFor at member
  by_cases newLike : request.isNewLike = true
  · rw [if_pos newLike, List.mem_flatMap] at member
    obtain ⟨producer, _, ofProducer⟩ := member
    unfold edgesFrom at ofProducer
    by_cases itself : producer.item = request.id
    · rw [if_pos itself] at ofProducer
      cases ofProducer
    · rw [if_neg itself] at ofProducer
      rcases List.mem_cons.mp ofProducer with same | ofReaders
      · rw [same]
        rfl
      · by_cases modifies : request.access.mode = .modifies
        · rw [if_pos modifies, mem_orderings] at ofReaders
          obtain ⟨_, _, _, _, _, same⟩ := ofReaders
          rw [same]
          rfl
        · rw [if_neg modifies] at ofReaders
          cases ofReaders
  · rw [if_neg newLike] at member
    unfold priorEdges at member
    cases last : resolver.lastProducer? request with
    | none =>
        rw [last] at member
        rw [List.mem_singleton.mp member]
        rfl
    | some producer =>
        rw [last] at member
        rcases List.mem_cons.mp member with same | ofLast
        · rw [same]
          rfl
        · by_cases itself : producer.item = request.id
          · rw [if_pos itself] at ofLast
            cases ofLast
          · rw [if_neg itself, List.mem_singleton] at ofLast
            rw [ofLast]
            rfl

/-- What is added into an item is added for its own requests. -/
theorem filter_additions
    {resolver : Resolver} {sendOf : Option RegionId → Nat} {requests : List Request}
    (ordered : requests.Pairwise fun earlier later => earlier.id ≤ later.id)
    (id : Nat) :
    (resolver.additions sendOf [] requests).filter (Edge.leadsTo id) =
      (requests.filter fun request => decide (request.id = id)).flatMap
        (resolver.edgesAmong sendOf requests) := by
  rw [additions_eq_flatMap ordered]
  apply filter_flatMap_of_iff
  intro request _ edge member
  unfold Edge.leadsTo
  rw [consumer_of_mem_edgesFor member]

end Resolver

/-- The edges that a lookup finds, without their places. -/
private theorem TaskGraph.map_snd_incoming (graph : TaskGraph) (id : Nat) :
    (graph.incoming id).map Prod.snd = graph.edges.filter (Edge.leadsTo id) := by
  have forgotten :
      ∀ (edges : List Edge) (start : Nat),
        ((edges.zipIdx start).filter fun pair => Edge.leadsTo id pair.1).map Prod.fst =
          edges.filter (Edge.leadsTo id) := by
    intro edges
    induction edges with
    | nil => exact fun _ => rfl
    | cons edge rest inductionHypothesis =>
        intro start
        rw [List.zipIdx_cons]
        by_cases into : edge.leadsTo id = true
        · rw [List.filter_cons_of_pos (by exact into), List.filter_cons_of_pos into, List.map_cons,
            inductionHypothesis]
        · rw [List.filter_cons_of_neg (by exact into), List.filter_cons_of_neg into,
            inductionHypothesis]
  unfold incoming edgesWhere
  rw [List.map_map]
  exact forgotten graph.edges 0

/-- The edges into an item of a compiled graph come of its requests. -/
theorem Compiler.Built.incoming_eq
    {compiler : Compiler} {units : List WorkUnit} {items : List WorkItem} {compiled : Compiled}
    (built : compiler.Built units items compiled)
    (id : Nat) :
    (compiled.graph.incoming id).map Prod.snd =
      Edge.gather []
        (((compiler.agenda compiled.units items).filter fun request =>
            decide (request.id = id)).flatMap
          ((compiler.resolver compiled.units items).edgesAmong
            (compiler.sendPlace compiled.units items) (compiler.agenda compiled.units items))) := by
  have ordered :
      (compiler.agenda compiled.units items).Pairwise fun earlier later =>
        earlier.id ≤ later.id :=
    Resolver.pairwise_agenda _ _
  rw [TaskGraph.map_snd_incoming, built.edges_eq, Edge.filter_gather]
  unfold Compiler.additions
  rw [Resolver.filter_additions ordered]
  rfl

end MeshTasks
