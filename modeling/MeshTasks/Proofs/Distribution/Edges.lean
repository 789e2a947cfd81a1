import MeshTasks.Proofs.Distribution.Renaming

/-!
# The same edges under other names

Where the neighborhood holds what a request is about, the request is served in
the part as it is in the whole: from the same producers, behind the same
readers, from the same send item.
-/

namespace MeshTasks

private theorem Request.key_renamed (place : Nat → Nat) (request : Request) :
    (request.renamed place).key = request.key :=
  rfl

private theorem renamedRead_fst (place : Nat → Nat) (read : ValueKey × Reader) :
    (renamedRead place read).1 = read.1 :=
  rfl

namespace Narrows

variable {compiler : Compiler} {placement : Placement} {units : List WorkUnit}
  {whole part : List WorkItem} {place : Nat → Nat}

theorem producers_renamed
    (narrows : Narrows compiler placement units whole part place)
    {request : Request}
    (notReduction : request.access.label.isReduction = false)
    (seen : placement.sees request.key = true) :
    (compiler.resolver units whole).producers (request.renamed place) =
      (((compiler.under placement).resolver units part).producers request).map
        (ProducerEntry.renamed place) := by
  have sameAccess : (request.renamed place).access = request.access := rfl
  have sameOrder : (request.renamed place).item.order = request.item.order := rfl
  unfold Resolver.producers Request.producerKey
  rw [sameAccess, sameOrder, Request.key_renamed, notReduction, if_neg Bool.false_ne_true,
    if_neg Bool.false_ne_true, if_neg Bool.false_ne_true, narrows.findProducer?_renamed seen,
    Option.toList_map]

theorem lastProducer?_renamed
    (narrows : Narrows compiler placement units whole part place)
    {request : Request}
    (notReduction : request.access.label.isReduction = false)
    (seen : placement.sees request.key = true) :
    (compiler.resolver units whole).lastProducer? (request.renamed place) =
      (((compiler.under placement).resolver units part).lastProducer? request).map
        (ProducerEntry.renamed place) := by
  have sameAccess : (request.renamed place).access = request.access := rfl
  have sameSettings :
      ((compiler.under placement).resolver units part).settings =
        (compiler.resolver units whole).settings := rfl
  unfold Resolver.lastProducer? Request.producerKey
  rw [sameAccess, sameSettings, Request.key_renamed, notReduction, if_neg Bool.false_ne_true]
  by_cases kept : (compiler.resolver units whole).settings.iterative = true ∧
      request.access.binding = .old
  · rw [if_pos kept, if_pos kept, narrows.findProducer?_renamed seen]
  · rw [if_neg kept, if_neg kept]
    rfl

theorem readsFrom_renamed
    (narrows : Narrows compiler placement units whole part place)
    (request : Request) (producer : ProducerEntry) :
    Resolver.readsFrom (request.renamed place) (producer.renamed place) =
      (Resolver.readsFrom request producer).map (renamedRead place) := by
  have sameCondition :
      ((producer.renamed place).item = (request.renamed place).id ∨
          (request.renamed place).access.mode = .modifies) ↔
        (producer.item = request.id ∨ request.access.mode = .modifies) :=
    or_congr_left narrows.injective.eq_iff
  unfold Resolver.readsFrom
  by_cases leavesNone : producer.item = request.id ∨ request.access.mode = .modifies
  · rw [if_pos leavesNone, if_pos (sameCondition.mpr leavesNone)]
    rfl
  · rw [if_neg leavesNone, if_neg fun leaves => leavesNone (sameCondition.mp leaves)]
    rfl

theorem reads_renamed
    (narrows : Narrows compiler placement units whole part place)
    {request : Request}
    (notReduction : request.access.label.isReduction = false)
    (seen : placement.sees request.key = true) :
    (compiler.resolver units whole).reads (request.renamed place) =
      (((compiler.under placement).resolver units part).reads request).map
        (renamedRead place) := by
  have sameNewLike : (request.renamed place).isNewLike = request.isNewLike := rfl
  unfold Resolver.reads
  rw [sameNewLike, narrows.producers_renamed notReduction seen]
  by_cases newLike : request.isNewLike = true
  · rw [if_pos newLike, if_pos newLike, List.flatMap_map, List.map_flatMap]
    simp only [narrows.readsFrom_renamed]
  · rw [if_neg newLike, if_neg newLike]
    rfl

theorem isOverwritten_renamed
    (narrows : Narrows compiler placement units whole part place)
    (request : Request) (producer : Nat) (read : ValueKey × Reader) :
    Resolver.isOverwritten (request.renamed place) (place producer) (renamedRead place read) =
      Resolver.isOverwritten request producer read := by
  have sameProducer :
      ((renamedRead place read).2.producer = place producer) ↔ read.2.producer = producer :=
    narrows.injective.eq_iff
  have sameItem :
      ((renamedRead place read).2.item ≠ (request.renamed place).id) ↔
        read.2.item ≠ request.id :=
    not_congr narrows.injective.eq_iff
  unfold Resolver.isOverwritten
  rw [renamedRead_fst, Request.key_renamed, decide_eq_decide.mpr sameProducer,
    decide_eq_decide.mpr sameItem]

/-- The edges to a request from its readers, under the names of the whole. -/
theorem edgesAfter_renamed
    (request : Request) (reads : List (ValueKey × Reader)) :
    (compiler.resolver units whole).edgesAfter (request.renamed place)
        (reads.map (renamedRead place)) =
      (((compiler.under placement).resolver units part).edgesAfter request reads).map
        (Edge.renamed place) := by
  unfold Resolver.edgesAfter
  rw [List.map_map, List.map_flatMap, List.flatMap_map, List.flatMap_map]
  congr 1
  funext read
  have sameSibling :
      (compiler.resolver units whole).isSibling (request.renamed place)
          (renamedRead place read).2 =
        ((compiler.under placement).resolver units part).isSibling request read.2 :=
    rfl
  rw [Function.comp_apply, sameSibling]
  by_cases sibling :
      ((compiler.under placement).resolver units part).isSibling request read.2 = true
  · rw [if_pos sibling, if_pos sibling]
    rfl
  · rw [if_neg sibling, if_neg sibling]
    rfl

end Narrows

/-- The neighborhood holds what some local regions are about: these regions
themselves, all that their items ask for, and all items that ask for what is
local. Modifications are of the own regions of an item. -/
structure Encloses (compiler : Compiler) (placement : Placement) (units : List WorkUnit)
    (whole : List WorkItem) (isLocal : RegionId → Prop) : Prop where
  locals_near : ∀ region, (compiler.grid.region? region).isSome = true → isLocal region →
    placement.isNear region = true
  targets_seen : ∀ request,
    (compiler.resolver units whole).Asks (.ofItems whole) request →
      (∃ region ∈ request.item.regions, isLocal region) → placement.sees request.key = true
  askers_kept : ∀ request region,
    (compiler.resolver units whole).Asks (.ofItems whole) request →
      request.target.region? = some region → isLocal region →
        placement.keeps request.item = true
  modified_own : ∀ request,
    (compiler.resolver units whole).Asks (.ofItems whole) request →
      request.access.mode = .modifies →
        ∃ region, request.item.regions = [region] ∧ request.target.region? = some region

namespace Narrows

variable {compiler : Compiler} {placement : Placement} {units : List WorkUnit}
  {whole part : List WorkItem} {place : Nat → Nat} {isLocal : RegionId → Prop}

theorem asks_renamed
    (narrows : Narrows compiler placement units whole part place)
    {request : Request}
    (member : request ∈ (compiler.under placement).agenda units part) :
    (compiler.resolver units whole).Asks (.ofItems whole) (request.renamed place) := by
  have renamedMember :
      request.renamed place ∈
        ((compiler.under placement).agenda units part).map (Request.renamed place) :=
    List.mem_map.mpr ⟨request, member, rfl⟩
  rw [← narrows.filter_agenda] at renamedMember
  exact Resolver.mem_agenda.mp (List.mem_filter.mp renamedMember).1

theorem not_reduction
    (narrows : Narrows compiler placement units whole part place)
    {request : Request}
    (member : request ∈ (compiler.under placement).agenda units part) :
    request.access.label.isReduction = false := by
  have asks := Resolver.mem_agenda.mp member
  obtain ⟨_, _, unitAt⟩ := Option.bind_eq_some_iff.mp asks.unit_of
  have regional := narrows.regional request.unit (List.mem_of_getElem? unitAt)
  exact regional.not_reduction request.access (List.mem_append_left _ asks.consumed)

private theorem id_lt_part
    {request : Request}
    (member : request ∈ (compiler.under placement).agenda units part) :
    request.id < part.length :=
  TaskGraph.item?_lt (Resolver.mem_agenda.mp member).item_at

/-- The readers of a value that a local item overwrites are in the part. -/
theorem overwritten_renamed
    (narrows : Narrows compiler placement units whole part place)
    (encloses : Encloses compiler placement units whole isLocal)
    {request : Request} {region : RegionId}
    (member : request ∈ (compiler.under placement).agenda units part)
    (regionEq : request.target.region? = some region)
    (isLocalRegion : isLocal region)
    (seen : placement.sees request.key = true)
    (producer : Nat) :
    ((compiler.resolver units whole).readsBefore (compiler.agenda units whole)
        (place request.id)).filter
        (Resolver.isOverwritten (request.renamed place) (place producer)) =
      ((((compiler.under placement).resolver units part).readsBefore
        ((compiler.under placement).agenda units part) request.id).filter
        (Resolver.isOverwritten request producer)).map (renamedRead place) := by
  have unkept :
      ∀ read ∈ (compiler.agenda units whole).filter fun read =>
          decide (read.id < place request.id),
        placement.keeps read.item = false →
          ((compiler.resolver units whole).reads read).filter
            (Resolver.isOverwritten (request.renamed place) (place producer)) = [] := by
    intro read readMember notKept
    have asks := Resolver.mem_agenda.mp (List.mem_filter.mp readMember).1
    apply Resolver.filter_reads_of_other_key
    intro sameKey
    have readRegion : read.target.region? = some region :=
      (congrArg ValueKey.region sameKey).trans regionEq
    rw [encloses.askers_kept read region asks readRegion isLocalRegion] at notKept
    cases notKept
  have swapped :
      ((compiler.agenda units whole).filter fun read =>
          decide (read.id < place request.id)).filter (fun read => placement.keeps read.item) =
        (((compiler.under placement).agenda units part).filter fun read =>
          decide (read.id < request.id)).map (Request.renamed place) := by
    rw [List.filter_comm, narrows.filter_agenda, List.filter_map]
    congr 1
    apply List.filter_congr
    intro read readMember
    rw [Function.comp_apply, decide_eq_decide]
    exact narrows.is_part.lt_iff_lt (id_lt_part readMember) (id_lt_part member)
  unfold Resolver.readsBefore
  rw [List.filter_flatMap, ← flatMap_filter_of_nil unkept, swapped, List.flatMap_map,
    List.filter_flatMap, List.map_flatMap, List.flatMap_def, List.flatMap_def]
  congr 1
  apply List.map_congr_left
  intro read readMember
  have inAgenda := (List.mem_filter.mp readMember).1
  by_cases sameKey : read.key = request.key
  · have readSeen : placement.sees read.key = true := sameKey ▸ seen
    have notReduction := narrows.not_reduction inAgenda
    rw [narrows.reads_renamed notReduction readSeen, List.filter_map]
    congr 1
    apply List.filter_congr
    intro found _
    exact narrows.isOverwritten_renamed request producer found
  · have renamedOther : (read.renamed place).key ≠ (request.renamed place).key := sameKey
    rw [Resolver.filter_reads_of_other_key renamedOther,
      Resolver.filter_reads_of_other_key sameKey]
    rfl

private theorem producer_eq_renamed_iff
    (narrows : Narrows compiler placement units whole part place)
    (request : Request) (producer : ProducerEntry) :
    (producer.renamed place).item = (request.renamed place).id ↔ producer.item = request.id :=
  narrows.injective.eq_iff

/-- A request is joined to a producer in the part as in the whole, with the
readers that it overwrites. -/
theorem edgesFrom_renamed
    (narrows : Narrows compiler placement units whole part place)
    (encloses : Encloses compiler placement units whole isLocal)
    {request : Request}
    (member : request ∈ (compiler.under placement).agenda units part)
    (seen : placement.sees request.key = true)
    (modifiesLocal : request.access.mode = .modifies →
      ∃ region, request.target.region? = some region ∧ isLocal region)
    (producer : ProducerEntry) :
    (compiler.resolver units whole).edgesFrom
        ((compiler.resolver units whole).readsBefore (compiler.agenda units whole)
          (request.renamed place).id)
        (request.renamed place) (producer.renamed place) =
      (((compiler.under placement).resolver units part).edgesFrom
        (((compiler.under placement).resolver units part).readsBefore
          ((compiler.under placement).agenda units part) request.id)
        request producer).map (Edge.renamed place) := by
  have sameItem := narrows.producer_eq_renamed_iff request producer
  have sameMode : (request.renamed place).access.mode = request.access.mode := rfl
  unfold Resolver.edgesFrom
  by_cases itself : producer.item = request.id
  · rw [if_pos itself, if_pos (sameItem.mpr itself)]
    rfl
  · rw [if_neg itself, if_neg fun same => itself (sameItem.mp same), List.map_cons, sameMode]
    by_cases modifies : request.access.mode = .modifies
    · obtain ⟨region, regionEq, isLocalRegion⟩ := modifiesLocal modifies
      have readers :=
        narrows.overwritten_renamed encloses member regionEq isLocalRegion seen producer.item
      have orderings :
          (compiler.resolver units whole).orderings
              ((compiler.resolver units whole).readsBefore (compiler.agenda units whole)
                (request.renamed place).id)
              (request.renamed place) (producer.renamed place).item =
            (((compiler.under placement).resolver units part).orderings
              (((compiler.under placement).resolver units part).readsBefore
                ((compiler.under placement).agenda units part) request.id)
              request producer.item).map (Edge.renamed place) := by
        rw [Resolver.orderings_eq, Resolver.orderings_eq, ← edgesAfter_renamed, ← readers]
        rfl
      rw [if_pos modifies, if_pos modifies, orderings]
      rfl
    · rw [if_neg modifies, if_neg modifies]
      rfl

/-- A request for a prior value waits in the part for what it waits for in the
whole. -/
theorem priorEdges_renamed
    (narrows : Narrows compiler placement units whole part place)
    {send : Nat} {request : Request}
    (notReduction : request.access.label.isReduction = false)
    (seen : placement.sees request.key = true) :
    (compiler.resolver units whole).priorEdges (place send) (request.renamed place) =
      (((compiler.under placement).resolver units part).priorEdges send request).map
        (Edge.renamed place) := by
  unfold Resolver.priorEdges
  rw [narrows.lastProducer?_renamed notReduction seen]
  cases ((compiler.under placement).resolver units part).lastProducer? request with
  | none => rfl
  | some producer =>
      have sameItem := narrows.producer_eq_renamed_iff request producer
      rw [Option.map_some]
      dsimp only
      rw [List.map_cons]
      by_cases itself : producer.item = request.id
      · rw [if_pos itself, if_pos (sameItem.mpr itself)]
        rfl
      · rw [if_neg itself, if_neg fun same => itself (sameItem.mp same)]
        rfl

/-- A request for what the neighborhood holds is served in the part as in the
whole. -/
theorem edgesAmong_renamed
    (narrows : Narrows compiler placement units whole part place)
    (encloses : Encloses compiler placement units whole isLocal)
    {sendWhole sendPart : Option RegionId → Nat} {request : Request}
    (member : request ∈ (compiler.under placement).agenda units part)
    (seen : placement.sees request.key = true)
    (modifiesLocal : request.access.mode = .modifies →
      ∃ region, request.target.region? = some region ∧ isLocal region)
    (sameSend : ¬ request.isNewLike = true →
      sendWhole request.target.region? = place (sendPart request.target.region?)) :
    (compiler.resolver units whole).edgesAmong sendWhole (compiler.agenda units whole)
        (request.renamed place) =
      (((compiler.under placement).resolver units part).edgesAmong sendPart
        ((compiler.under placement).agenda units part) request).map (Edge.renamed place) := by
  have notReduction := narrows.not_reduction member
  have sameNewLike : (request.renamed place).isNewLike = request.isNewLike := rfl
  have sameTarget : (request.renamed place).target = request.target := rfl
  unfold Resolver.edgesAmong Resolver.edgesFor
  rw [sameNewLike]
  by_cases newLike : request.isNewLike = true
  · rw [if_pos newLike, if_pos newLike, narrows.producers_renamed notReduction seen,
      List.flatMap_map, List.map_flatMap]
    congr 1
    funext producer
    exact narrows.edgesFrom_renamed encloses member seen modifiesLocal producer
  · rw [if_neg newLike, if_neg newLike, sameTarget, sameSend newLike]
    exact narrows.priorEdges_renamed notReduction seen

/-- The requests of an item of the part are those of its place in the whole. -/
theorem filter_agenda_place
    (narrows : Narrows compiler placement units whole part place)
    {id : Nat}
    (bound : id < part.length) :
    (compiler.agenda units whole).filter (fun request => decide (request.id = place id)) =
      (((compiler.under placement).agenda units part).filter fun request =>
        decide (request.id = id)).map (Request.renamed place) := by
  have kept :
      (compiler.agenda units whole).filter (fun request => decide (request.id = place id)) =
        ((compiler.agenda units whole).filter fun request =>
          placement.keeps request.item).filter fun request =>
            decide (request.id = place id) := by
    rw [List.filter_filter]
    apply List.filter_congr
    intro request member
    by_cases atPlace : request.id = place id
    · have asks := Resolver.mem_agenda.mp member
      have itemAt : whole[request.id]? = some request.item := asks.item_at
      have keptPlace : place id ∈ (TaskGraph.ofItems whole).itemsWhere placement.keeps := by
        rw [narrows.is_part.kept_eq]
        exact List.mem_map.mpr ⟨id, List.mem_range.mpr bound, rfl⟩
      obtain ⟨item, placeAt, keeps⟩ := TaskGraph.mem_itemsWhere.mp keptPlace
      have sameItem : item = request.item := by
        rw [← atPlace] at placeAt
        exact Option.some.inj (placeAt.symm.trans itemAt)
      rw [sameItem] at keeps
      rw [keeps, Bool.and_true]
    · rw [decide_eq_false atPlace, Bool.false_and]
  rw [kept, narrows.filter_agenda, List.filter_map]
  congr 1
  apply List.filter_congr
  intro request _
  rw [Function.comp_apply, decide_eq_decide]
  exact narrows.injective.eq_iff

end Narrows

end MeshTasks
