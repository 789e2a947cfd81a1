import MeshTasks.Proofs.DataPaths

/-!
# Overwriting a value that is read

A modification waits for the recorded readers of the value that it overwrites.
Only reads by accesses that leave the value alone are recorded, the items of one
unit are not kept apart, and a reader is found through its producer only. So a
later modification is certain to wait for a reader if the reader is recorded, or
makes the value itself, and if all that is made of the value in between comes of
later units that ask for it.
-/

namespace MeshTasks

private theorem TaskGraph.Feeds.before
    {graph : TaskGraph} {earlier later : Nat}
    (feeds : graph.Feeds earlier later) :
    graph.Before earlier later := by
  obtain ⟨edge, member, _, always, sameProducer, sameConsumer⟩ := feeds
  have counts : edge.countsFirst = true := by
    unfold Edge.countsFirst
    rw [always]
    rfl
  exact ⟨edge, member, counts, sameProducer, sameConsumer⟩

namespace Compiled

/-- The item at a place modifies a value of a region of its own, without
reaching out, where new values are kept. -/
structure Overwrites (compiled : Compiled) (id : Nat) (item : WorkItem) (key : ValueKey)
    (region : RegionId) : Prop where
  item_at : compiled.graph.item? id = some item
  region_eq : key.region = some region
  by_access : ∃ unit access, item.unit?.bind (compiled.units[·]?) = some unit ∧
    access ∈ unit.modifies ∧ access.domain = .regionBound ∧ access.halo.isGhosted = false ∧
      access.binding = .new ∧ key ∈ producedKeys access item

/-- The item at a place leaves, by modifying it, a value that is seen under a
key. -/
structure LeavesModified (compiled : Compiled) (id : Nat) (item : WorkItem) (key : ValueKey) :
    Prop where
  item_at : compiled.graph.item? id = some item
  by_access : ∃ unit access, item.unit?.bind (compiled.units[·]?) = some unit ∧
    access ∈ unit.modifies ∧ takesPart unit item access = true ∧
      (key ∈ producedKeys access item ∨ { key with region := none } ∈ producedKeys access item)

/-- An edge of every execution carries a new value of a region to an item. -/
structure Reads (compiled : Compiled) (edge : Edge) (item : WorkItem) (key : ValueKey)
    (region : RegionId) : Prop where
  mem : edge ∈ compiled.graph.edges
  always : edge.transfer.condition = .always
  carries : ⟨key.label, edge.transfer.binding, key.region, key.material⟩ ∈ edge.scrubKeys
  region_eq : key.region = some region
  item_at : compiled.graph.item? edge.consumer = some item
  is_new : ∃ unit, item.unit?.bind (compiled.units[·]?) = some unit ∧
    unit.isNewLike edge.transfer.binding = true

/-- Whatever else modifies a value from the unit of its reader on, and before a
later unit, belongs to a unit after the reader's and asks for the value that it
modifies. -/
def HandedOn (compiled : Compiled) (grid : Grid) (key : ValueKey) (reader start finish : Nat) :
    Prop :=
  ∀ id item, compiled.LeavesModified id item key → id ≠ reader → start ≤ item.order →
    item.order < finish →
      start < item.order ∧ compiled.AsksFor grid WorkUnit.modifies id item key

end Compiled

namespace Compiler

namespace Built

variable {compiler : Compiler} {units : List WorkUnit} {items : List WorkItem}
  {compiled : Compiled}

/-- Sorting leaves the accesses of units as they were declared. -/
theorem declared
    (built : compiler.Built units items compiled)
    (allDeclared : ∀ unit ∈ units, unit.Declared) :
    ∀ unit ∈ compiled.units, unit.Declared := by
  intro unit member
  obtain ⟨place, unitAt⟩ := List.mem_iff_getElem?.mp member
  obtain ⟨original, originalMember, phase, rfl⟩ :=
    (sortUnits_sorted built.sorted_ok).seated unitAt
  have originalDeclared := allDeclared original originalMember
  exact ⟨originalDeclared.requires_mode, originalDeclared.modifies_mode,
    originalDeclared.computes_mode, originalDeclared.computes_new⟩

/-- An edge that carries a new value in every execution serves a request for
that value. -/
private theorem exists_takes_of_reads
    (built : compiler.Built units items compiled)
    {edge : Edge} {item : WorkItem} {key : ValueKey} {region : RegionId}
    (reads : compiled.Reads edge item key region) :
    ∃ request producer,
      (compiler.resolver compiled.units items).Takes (.ofItems items) request producer ∧
        request.key = key ∧ request.id = edge.consumer ∧ request.item = item := by
  have isData := (Edge.mem_scrubKeys.mp reads.carries).1
  have brings : compiled.BringsNew edge item :=
    ⟨reads.mem, isData, reads.always, reads.item_at, reads.is_new⟩
  obtain ⟨request, producer, takes, sameKey, sameId, sameItem, _⟩ :=
    built.exists_takes_of_carried brings reads.carries
  exact ⟨request, producer, takes, sameKey, sameId, sameItem⟩

/-- Items of different units are no siblings. -/
private theorem isSibling_eq_false
    {request : Request} {reader : Reader}
    (different : reader.unit ≠ request.item.unit?) :
    (compiler.resolver compiled.units items).isSibling request reader = false :=
  decide_eq_false fun sibling => different sibling.2.1

/-- A recorded reader of a producer's value comes before whoever overwrites that
value. -/
private theorem before_of_same_producer
    (built : compiler.Built units items compiled)
    {read request : Request} {producer : ProducerEntry}
    (reads : (compiler.resolver compiled.units items).Takes (.ofItems items) read producer)
    (onlyReads : read.access.mode ≠ .modifies)
    (overwrites :
      (compiler.resolver compiled.units items).Takes (.ofItems items) request producer)
    (modifies : request.access.mode = .modifies)
    (sameKey : read.key = request.key)
    (earlier : read.item.order < request.item.order) :
    compiled.graph.Before read.id request.id := by
  have readAt : items[read.id]? = some read.item := reads.asks.item_at
  have requestAt : items[request.id]? = some request.item := overwrites.asks.item_at
  obtain ⟨_, readBelongs⟩ := built.belongsTo readAt
  obtain ⟨_, requestBelongs⟩ := built.belongsTo requestAt
  have lower : read.id < request.id := by
    by_contra notLower
    rcases Nat.eq_or_lt_of_le (Nat.le_of_not_lt notLower) with same | after
    · have sameItem : request.item = read.item := by
        rw [same] at requestAt
        exact Option.some.inj (requestAt.symm.trans readAt)
      exact Nat.ne_of_lt earlier (congrArg WorkItem.order sameItem.symm)
    · exact Nat.not_le_of_lt earlier
        (order_le_of_lt built.seated built.items_ok requestAt readAt after)
  have apart :
      (compiler.resolver compiled.units items).isSibling request
        ⟨read.id, read.item.unit?, producer.item⟩ = false := by
    apply isSibling_eq_false
    rw [readBelongs.unit?_eq, requestBelongs.unit?_eq]
    exact fun same => Nat.ne_of_lt earlier (Option.some.inj same)
  have adds : compiler.Adds compiled.units items (request.edgeAfter read.id) :=
    .ordering reads onlyReads overwrites modifies sameKey rfl lower apart
  obtain ⟨edge, member, sameProducer, sameConsumer, sameTransfer⟩ := built.exists_edge adds
  refine ⟨edge, member, ?_, sameProducer, sameConsumer⟩
  unfold Edge.countsFirst
  rw [sameTransfer]
  rfl

/-- Whoever computes a value is an item of a unit before all units that ask for
it. -/
private theorem order_lt_of_computes
    (built : compiler.Built units items compiled)
    {request : Request} {id : Nat} {item : WorkItem} {unit : WorkUnit} {access : Access}
    (asks : (compiler.resolver compiled.units items).Asks (.ofItems items) request)
    (newLike : request.isNewLike = true)
    (leaves : compiled.Leaves id item unit access request.key)
    (computes : access ∈ unit.computes) :
    item.order < request.item.order := by
  obtain ⟨position, fromUnit, _⟩ := Option.bind_eq_some_iff.mp leaves.unit_of
  obtain ⟨_, makerBelongs⟩ := built.belongsTo (built.item_of_unit? leaves.item_at fromUnit)
  obtain ⟨_, askerBelongs⟩ := built.belongsTo asks.item_at
  have makerUnit := makerBelongs.unit_of
  rw [leaves.unit_of] at makerUnit
  cases makerUnit
  have askerUnit := askerBelongs.unit_of
  have ofRequest : request.item.unit?.bind (compiled.units[·]?) = some request.unit :=
    asks.unit_of
  rw [ofRequest] at askerUnit
  cases askerUnit
  have label : access.label = request.access.label := leaves.label_eq
  have needed : request.access.label ∈ request.unit.neededLabels :=
    List.mem_map.mpr ⟨request.access, List.mem_filter.mpr ⟨asks.consumed, newLike⟩, rfl⟩
  have computed : unit.computesLabel request.access.label = true :=
    List.any_eq_true.mpr ⟨access, computes, decide_eq_true label⟩
  exact (sortUnits_sorted built.sorted_ok).computed_before askerBelongs.unit_at
    makerBelongs.unit_at needed computed

/-- An item that overwrites a value asks for it. -/
private theorem asksFor_of_overwrites
    (built : compiler.Built units items compiled)
    {id : Nat} {item : WorkItem} {key : ValueKey} {region : RegionId}
    (notReduction : key.label.isReduction = false)
    (overwrites : compiled.Overwrites id item key region) :
    compiled.AsksFor compiler.grid WorkUnit.modifies id item key := by
  obtain ⟨unit, access, unitOf, modifies, bound, bare, isNew, produced⟩ := overwrites.by_access
  obtain ⟨position, fromUnit, _⟩ := Option.bind_eq_some_iff.mp unitOf
  have itemAt := built.item_of_unit? overwrites.item_at fromUnit
  have placed := regions_ne_nil_of_mem_producedKeys produced overwrites.region_eq
  have ofAccess : access.label.isReduction = false := by
    rw [← label_of_mem_producedKeys produced]
    exact notReduction
  obtain ⟨sameLabel, ⟨held, inItem, admitted, keyRegion⟩, materialMember⟩ :=
    (mem_producedKeys_of_bound bound ofAccess placed).mp produced
  have consumed : access ∈ unit.consumed := List.mem_append_right _ modifies
  have ofUnit : id ∈ (TaskGraph.ofItems items).unitItems :=
    TaskGraph.mem_unitItems.mpr ⟨item, itemAt, WorkItem.isSend_eq_false_of_unit? fromUnit⟩
  obtain ⟨found, foundOk⟩ := built.has_targets id ofUnit item unit itemAt unitOf access consumed
  obtain ⟨target, targetMember, targetRegion⟩ :=
    exists_target_of_bare ofAccess bound bare foundOk inItem admitted
  have newLike : unit.isNewLike access.binding = true := by
    rw [isNew]
    exact decide_eq_true rfl
  exact ⟨overwrites.item_at, unit, access, unitOf, modifies, newLike, sameLabel.symm,
    materialMember, found, foundOk, target, targetMember, targetRegion.trans keyRegion.symm⟩

/-- A request for a value of a region is served by the nearest maker of the
value. -/
private theorem findProducer?_of_takes
    {request : Request} {producer : ProducerEntry} {region : RegionId}
    (takes : (compiler.resolver compiled.units items).Takes (.ofItems items) request producer)
    (regional : request.key.region = some region) :
    (compiler.resolver compiled.units items).index.findProducer? request.key
      request.item.order = some producer := by
  have found := takes.found
  unfold Resolver.producers Request.producerKey at found
  rw [not_reduction_of_region takes.asks regional, if_neg Bool.false_ne_true,
    if_neg Bool.false_ne_true, Option.mem_toList] at found
  exact found

/-- If nothing makes a value between its reader and whoever overwrites it, then
the reader is recorded as a reader of the value that is overwritten, unless it
makes the value itself. -/
private theorem before_of_nearest_before
    (built : compiler.Built units items compiled)
    (allDeclared : ∀ unit ∈ compiled.units, unit.Declared)
    {read request : Request} {nearest : ProducerEntry} {region : RegionId}
    (regional : read.key.region = some region)
    (recorded :
      compiled.AsksFor compiler.grid WorkUnit.requires read.id read.item read.key ∨
        compiled.Produces read.id read.item read.key)
    (overwrites :
      (compiler.resolver compiled.units items).Takes (.ofItems items) request nearest)
    (modifies : request.access.mode = .modifies)
    (sameKey : request.key = read.key)
    (after : read.item.order < request.item.order)
    (beforeReader : nearest.order < read.item.order) :
    compiled.graph.Before read.id request.id := by
  have requestRegion : request.key.region = some region := sameKey ▸ regional
  have found := findProducer?_of_takes overwrites requestRegion
  obtain ⟨_, greatest⟩ := ProducerIndex.findProducer?_spec found
  have noneBetween :
      ∀ entry ∈ (compiler.resolver compiled.units items).index.visible request.key,
        entry.order < request.item.order → entry.order < read.item.order := by
    intro entry visible earlier
    have isCandidate := ProducerIndex.mem_candidates.mpr ⟨visible, earlier⟩
    exact Nat.lt_of_le_of_lt (greatest entry isCandidate) beforeReader
  rcases recorded with asksFor | produces
  · obtain ⟨other, asks, newLike, isRequired, otherKey, otherId, otherItem⟩ :=
      built.exists_request (fun _ => List.subset_append_left _ _) asksFor
    have onlyReads : other.access.mode ≠ .modifies := by
      obtain ⟨_, _, unitAt⟩ := Option.bind_eq_some_iff.mp asks.unit_of
      have declared := allDeclared other.unit (List.mem_of_getElem? unitAt)
      rw [declared.requires_mode other.access isRequired]
      exact nofun
    have sameLookup :
        (compiler.resolver compiled.units items).index.findProducer? other.key
          other.item.order = some nearest := by
      rw [otherKey, otherItem, ← sameKey,
        ← ProducerIndex.findProducer?_congr (Nat.le_of_lt after) noneBetween]
      exact found
    have otherRegion : other.key.region = some region := otherKey ▸ regional
    have otherTakes :=
      takes_of_findProducer? asks newLike (not_reduction_of_region asks otherRegion) sameLookup
    have joined :=
      built.before_of_same_producer otherTakes onlyReads overwrites modifies
        (otherKey.trans sameKey.symm) (otherItem ▸ after)
    rw [otherId] at joined
    exact joined
  · exfalso
    obtain ⟨unit, access, unitOf, produced, keyMember⟩ := produces.by_access
    have placed := regions_ne_nil_of_mem_producedKeys keyMember regional
    obtain ⟨maker, written, made⟩ := built.exists_recording produces placed
    have visible :
        (⟨read.id, read.item.order, written.mode⟩ : ProducerEntry) ∈
          (compiler.resolver compiled.units items).index.visible request.key := by
      rw [sameKey]
      exact ProducerIndex.mem_visible.mpr
        (Or.inl (mem_allRecordings.mpr ⟨read.item, maker, written, made⟩))
    exact Nat.lt_irrefl _ (noneBetween _ visible after)

/-- Whoever made a value since it was read has modified it, for its computation
precedes all who ask for it. -/
private theorem leavesModified_of_visible
    (built : compiler.Built units items compiled)
    {read : Request} {entry : ProducerEntry}
    (asks : (compiler.resolver compiled.units items).Asks (.ofItems items) read)
    (newLike : read.isNewLike = true)
    (visible : entry ∈ (compiler.resolver compiled.units items).index.visible read.key)
    (sinceReader : read.item.order ≤ entry.order) :
    ∃ item, compiled.LeavesModified entry.item item read.key ∧ entry.order = item.order := by
  obtain ⟨item, unit, access, leaves, orderEq, _⟩ := built.mem_visible_iff.mp visible
  refine ⟨item, ⟨leaves.item_at, unit, access, leaves.unit_of, ?_, leaves.takes_part,
    leaves.seen⟩, orderEq⟩
  rcases List.mem_append.mp leaves.produced with computes | modifies
  · have computedBefore := built.order_lt_of_computes asks newLike leaves computes
    omega
  · exact modifies

/-- By induction on where the modification stands. Either it overwrites the
value that the reader took, so that the two are joined, or it takes its value
from a modification since then. -/
theorem path_to_modification
    (built : compiler.Built units items compiled)
    (allDeclared : ∀ unit ∈ compiled.units, unit.Declared)
    {read : Request} {source : ProducerEntry} {region : RegionId} {finish : Nat}
    (reads : (compiler.resolver compiled.units items).Takes (.ofItems items) read source)
    (regional : read.key.region = some region)
    (recorded :
      compiled.AsksFor compiler.grid WorkUnit.requires read.id read.item read.key ∨
        compiled.Produces read.id read.item read.key)
    (handedOn :
      compiled.HandedOn compiler.grid read.key read.id read.item.order finish)
    {id : Nat} {item : WorkItem}
    (asksFor : compiled.AsksFor compiler.grid WorkUnit.modifies id item read.key)
    (after : read.item.order < item.order)
    (atMost : item.order ≤ finish) :
    Relation.TransGen compiled.graph.Before read.id id := by
  obtain ⟨sourceCandidate, _⟩ :=
    ProducerIndex.findProducer?_spec (findProducer?_of_takes reads regional)
  obtain ⟨sourceVisible, sourceEarlier⟩ := ProducerIndex.mem_candidates.mp sourceCandidate
  induction place : item.order using Nat.strongRecOn generalizing id item with
  | ind place inductionHypothesis =>
      subst place
      obtain ⟨request, asks, newLike, modifies, sameKey, rfl, rfl⟩ :=
        built.exists_request (fun _ => List.subset_append_right _ _) asksFor
      obtain ⟨_, belongs⟩ := built.belongsTo asks.item_at
      have declared : request.unit.Declared := by
        apply allDeclared
        obtain ⟨_, _, unitAt⟩ := Option.bind_eq_some_iff.mp asks.unit_of
        exact List.mem_of_getElem? unitAt
      have modifiesMode := declared.modifies_mode request.access modifies
      have requestRegion : request.key.region = some region := sameKey ▸ regional
      have requestNotReduction := not_reduction_of_region asks requestRegion
      have sourceSeen :
          source ∈ (compiler.resolver compiled.units items).index.visible request.key := by
        rw [sameKey]
        exact sourceVisible
      obtain ⟨nearest, found, atLeast, nearestBefore, visible⟩ :=
        exists_nearest sourceSeen (Nat.lt_trans sourceEarlier after)
      have takes := takes_of_findProducer? asks newLike requestNotReduction found
      have lastStep := (built.feeds_of_takes takes).before
      -- A nearest maker before the reader is the one that the reader took its value from, so the
      -- reader is found among the readers of it. Any other leads back to the reader by induction.
      rcases Nat.lt_or_ge nearest.order read.item.order with beforeReader | sinceReader
      · exact Relation.TransGen.single
          (built.before_of_nearest_before allDeclared regional recorded takes modifiesMode
            sameKey after beforeReader)
      · rw [sameKey] at visible
        obtain ⟨item, leaves, orderEq⟩ :=
          built.leavesModified_of_visible reads.asks reads.is_new visible sinceReader
        by_cases itself : nearest.item = read.id
        · rw [← itself]
          exact Relation.TransGen.single lastStep
        · rw [orderEq] at sinceReader nearestBefore
          obtain ⟨later, nearestAsks⟩ :=
            handedOn nearest.item item leaves itself sinceReader
              (Nat.lt_of_lt_of_le nearestBefore atMost)
          have toNearest :=
            inductionHypothesis item.order nearestBefore nearestAsks later
              (Nat.le_trans (Nat.le_of_lt nearestBefore) atMost) rfl
          exact Relation.TransGen.tail toNearest lastStep

end Built

/-- A modification runs after the readers of what it overwrites, in every order
that respects the edges, if they are recorded or make the value themselves and
if whatever modifies it in between hands it on. -/
theorem path_of_overwrites
    {compiler : Compiler} {units : List WorkUnit} {compiled : Compiled}
    (allDeclared : ∀ unit ∈ units, unit.Declared)
    (compiledOk : compiler.compile units = .ok compiled)
    {edge : Edge} {reader writer : WorkItem} {later : Nat} {key : ValueKey} {region : RegionId}
    (reads : compiled.Reads edge reader key region)
    (overwrites : compiled.Overwrites later writer key region)
    (after : reader.order < writer.order)
    (recorded :
      compiled.AsksFor compiler.grid WorkUnit.requires edge.consumer reader key ∨
        compiled.Produces edge.consumer reader key)
    (handedOn :
      compiled.HandedOn compiler.grid key edge.consumer reader.order writer.order) :
    Relation.TransGen compiled.graph.Before edge.consumer later ∧
      ∀ time : Nat → Nat,
        (∀ edge ∈ compiled.graph.edges, edge.countsFirst = true →
          time edge.producer < time edge.consumer) →
        time edge.consumer < time later := by
  obtain ⟨_, _, items, built⟩ := compile_eq_ok_iff.mp compiledOk
  obtain ⟨request, source, takes, rfl, atConsumer, rfl⟩ := built.exists_takes_of_reads reads
  rw [← atConsumer] at recorded handedOn ⊢
  have notReduction := Built.not_reduction_of_region takes.asks reads.region_eq
  have asksFor := built.asksFor_of_overwrites notReduction overwrites
  have path :=
    built.path_to_modification (built.declared allDeclared) takes reads.region_eq recorded handedOn
      asksFor after (Nat.le_refl _)
  exact ⟨path, fun time => TaskGraph.lt_of_path path time⟩

end Compiler

/-! ## The right cube, read and drained -/

namespace Row

/-- The left cube spreads into the right one, which is drained next. -/
def spreadThenDrain : List WorkUnit := [
  (unit "advance" [⟨0⟩, ⟨1⟩]).computing (.of density),
  (unit "spread" [⟨0⟩]).modifying around,
  (unit "drain" [⟨1⟩]).modifying (.of density)]

def densityOfRight : ValueKey := ⟨density, some ⟨1⟩, some ⟨0⟩⟩

/-- The cells of the right cube next to the left one. -/
def seam : Box := ⟨⟨four, .zero, .zero⟩, ⟨.clamp 5, four, four⟩⟩

/-- What brings the density of the seam to the second unit. -/
def carried : Edge :=
  ⟨1, 2, ⟨density, .new, some ⟨1⟩, some seam, .zero, .always, .data⟩, [⟨0⟩]⟩

/-- An item of a unit of the row. -/
def item (position : Nat) (name : String) (region : RegionId) : WorkItem :=
  ⟨.unit position, name, [region], some (.ofList [⟨0⟩]), ⟨0⟩, position, none⟩

theorem readThenModify_declared : ∀ unit ∈ readThenModify, unit.Declared := by
  intro unit member
  rcases List.mem_cons.mp member with rfl | member
  · exact ((declared_unit _ _).computing _).requiring _
  · rcases List.mem_cons.mp member with rfl | member
    · exact (declared_unit _ _).requiring _
    · rw [List.mem_singleton.mp member]
      exact (declared_unit _ _).modifying _

end Row

theorem path_of_overwrites_row :
    Row.compiler.compile Row.readThenModify = .ok (Row.result Row.readThenModify) ∧
      Relation.TransGen (Row.result Row.readThenModify).graph.Before 2 3 := by
  have compiledOk :
      Row.compiler.compile Row.readThenModify = .ok (Row.result Row.readThenModify) := rfl
  have reads :
      (Row.result Row.readThenModify).Reads Row.carried (Row.item 1 "measure" ⟨0⟩)
        Row.densityOfRight ⟨1⟩ :=
    ⟨by decide, rfl, by decide, rfl, rfl, _, rfl, by decide⟩
  have overwrites :
      (Row.result Row.readThenModify).Overwrites 3 (Row.item 2 "drain" ⟨1⟩)
        Row.densityOfRight ⟨1⟩ :=
    ⟨rfl, rfl, _, { Access.of Row.density with mode := .modifies }, rfl, by decide, rfl, rfl, rfl,
      by decide⟩
  have recorded :
      (Row.result Row.readThenModify).AsksFor Row.compiler.grid WorkUnit.requires 2
        (Row.item 1 "measure" ⟨0⟩) Row.densityOfRight :=
    ⟨rfl, _, Row.around, rfl, by decide, by decide, rfl, by decide, _, rfl, _,
      List.mem_cons_of_mem _ List.mem_cons_self, rfl⟩
  have handedOn :
      (Row.result Row.readThenModify).HandedOn Row.compiler.grid Row.densityOfRight 2 1 2 := by
    intro id item leaves other atLeast below
    have onlyReader :
        ∀ place < 6, place ≠ 2 →
          ∀ held ∈ (Row.result Row.readThenModify).graph.item? place,
            ¬ (1 ≤ held.order ∧ held.order < 2) := by
      decide
    have bound : id < 6 := TaskGraph.item?_lt leaves.item_at
    exact absurd ⟨atLeast, below⟩ (onlyReader id bound other item leaves.item_at)
  exact ⟨compiledOk, (Compiler.path_of_overwrites Row.readThenModify_declared compiledOk reads
    overwrites (by decide) (Or.inl recorded) handedOn).1⟩

/-- A modification that reaches out is no recorded reader of what it reaches. -/
theorem no_path_of_spread_row :
    Row.compiler.compile Row.spreadThenDrain = .ok (Row.result Row.spreadThenDrain) ∧
      (Row.result Row.spreadThenDrain).Reads Row.carried (Row.item 1 "spread" ⟨0⟩)
        Row.densityOfRight ⟨1⟩ ∧
      (Row.result Row.spreadThenDrain).Overwrites 3 (Row.item 2 "drain" ⟨1⟩)
        Row.densityOfRight ⟨1⟩ ∧
      ¬ Relation.TransGen (Row.result Row.spreadThenDrain).graph.Before 2 3 := by
  refine ⟨rfl, ⟨List.mem_cons_of_mem _ List.mem_cons_self, rfl, by decide, rfl, rfl, _, rfl,
      by decide⟩,
    ⟨rfl, rfl, _, { Access.of Row.density with mode := .modifies }, rfl, by decide, rfl, rfl, rfl,
      by decide⟩, ?_⟩
  intro path
  have noWayOut :
      ∀ edge ∈ (Row.result Row.spreadThenDrain).graph.edges, edge.producer ≠ 2 := by
    decide
  obtain ⟨_, first, _⟩ := Relation.TransGen.head'_iff.mp path
  obtain ⟨edge, member, _, fromReader, _⟩ := first
  exact noWayOut edge member fromReader

end MeshTasks
