import MeshTasks.Proofs.Distribution.Parts
import MeshTasks.Proofs.Resolution.Incoming

/-!
# The same work under other names

A compiler under the placement of a process asks the requests, and makes the
recordings, that it asks and makes under the serial placement for the same
items, only that the items have other names. What is recorded on a region of the
neighborhood is recorded in full, so lookups there agree.
-/

namespace MeshTasks

/-- The compiler under another placement. -/
def Compiler.under (compiler : Compiler) (placement : Placement) : Compiler :=
  { compiler with placement := placement }

/-- The request with its item named anew and run by the first process. -/
def Request.renamed (place : Nat → Nat) (request : Request) : Request :=
  { request with id := place request.id, item := request.item.serial }

def ProducerEntry.renamed (place : Nat → Nat) (entry : ProducerEntry) : ProducerEntry :=
  { entry with item := place entry.item }

def Recording.renamed (place : Nat → Nat) (recording : Recording) : Recording :=
  { recording with entry := recording.entry.renamed place }

def Reader.renamed (place : Nat → Nat) (reader : Reader) : Reader :=
  { reader with item := place reader.item, producer := place reader.producer }

/-- A read with its items named anew. -/
def renamedRead (place : Nat → Nat) (read : ValueKey × Reader) : ValueKey × Reader :=
  (read.1, read.2.renamed place)

/-- Whether a value belongs to the neighborhood or to no region. -/
def Placement.sees (placement : Placement) (key : ValueKey) : Bool :=
  key.region.all placement.isNear

/-- The items that a compiler makes of sorted units under its own placement,
with the part of them that it makes under another. -/
structure Narrows (compiler : Compiler) (placement : Placement) (units : List WorkUnit)
    (whole part : List WorkItem) (place : Nat → Nat) : Prop where
  seated : Seated units
  regional : ∀ unit ∈ units, unit.Regional
  whole_ok : instantiateAll compiler.grid compiler.settings compiler.placement units = .ok whole
  part_ok : instantiateAll compiler.grid compiler.settings placement units = .ok part
  is_part : IsPart whole part placement.keeps place
  injective : Function.Injective place

/-- Where no items are send items, all of them are items of units. -/
private theorem unitItems_ofItems
    {items : List WorkItem}
    (ofUnits : ∀ item ∈ items, item.isSend = false) :
    (TaskGraph.ofItems items).unitItems = List.range items.length := by
  unfold TaskGraph.unitItems TaskGraph.itemsWhere
  apply List.filter_eq_self.mpr
  intro id member
  have bound : id < items.length := List.mem_range.mp member
  have itemAt : (TaskGraph.ofItems items).items[id]? = some items[id] :=
    List.getElem?_eq_getElem bound
  rw [itemAt]
  dsimp only
  rw [ofUnits _ (List.getElem_mem bound)]
  rfl

theorem WorkItem.unit?_serial (item : WorkItem) : item.serial.unit? = item.unit? := rfl

/-- What is made item by item can be selected item by item. -/
private theorem filter_flatMap_items
    {α : Type} {make : Nat → List α} {test : α → Bool} {keeps : WorkItem → Bool}
    {items : List WorkItem}
    (same : ∀ id item, items[id]? = some item → ∀ result ∈ make id, test result = keeps item) :
    ((List.range items.length).flatMap make).filter test =
      ((TaskGraph.ofItems items).itemsWhere keeps).flatMap make := by
  unfold TaskGraph.itemsWhere
  apply filter_flatMap_of_iff
  intro id member result made
  have bound : id < items.length := List.mem_range.mp member
  have itemAt : (TaskGraph.ofItems items).items[id]? = some items[id] :=
    List.getElem?_eq_getElem bound
  rw [itemAt]
  exact same id items[id] itemAt result made

/-- The recordings of the item at a place. -/
def recordingsAt (units : List WorkUnit) (graph : TaskGraph) (id : Nat) : List Recording :=
  match graph.item? id with
  | none => []
  | some item =>
      match item.unit?.bind (units[·]?) with
      | none => []
      | some unit =>
          (unit.produced.filter (takesPart unit item)).flatMap fun access =>
            (producedKeys access item).map fun key => ⟨key, id, item.order, access.mode⟩

private theorem allRecordings_eq_flatMap (units : List WorkUnit) (graph : TaskGraph) :
    allRecordings units graph = graph.unitItems.flatMap (recordingsAt units graph) := by
  unfold allRecordings productions
  rw [List.flatMap_assoc]
  congr 1
  funext id
  unfold recordingsAt
  cases itemAt : graph.item? id with
  | none => rfl
  | some item =>
      dsimp only
      cases item.unit?.bind (units[·]?) with
      | none => rfl
      | some unit =>
          dsimp only
          rw [List.flatMap_map]
          congr 1
          funext access
          unfold recordingsOf
          rw [itemAt]

private theorem mem_recordingsAt
    {units : List WorkUnit} {graph : TaskGraph} {id : Nat} {item : WorkItem}
    {recording : Recording}
    (itemAt : graph.item? id = some item)
    (member : recording ∈ recordingsAt units graph id) :
    ∃ unit access, item.unit?.bind (units[·]?) = some unit ∧ access ∈ unit.produced ∧
      recording.key ∈ producedKeys access item := by
  unfold recordingsAt at member
  rw [itemAt] at member
  dsimp only at member
  cases unitOf : item.unit?.bind (units[·]?) with
  | none =>
      rw [unitOf] at member
      cases member
  | some unit =>
      rw [unitOf] at member
      obtain ⟨access, admitted, ofAccess⟩ := List.mem_flatMap.mp member
      obtain ⟨key, keyMember, rfl⟩ := List.mem_map.mp ofAccess
      exact ⟨unit, access, rfl, (List.mem_filter.mp admitted).1, keyMember⟩

namespace Narrows

variable {compiler : Compiler} {placement : Placement} {units : List WorkUnit}
  {whole part : List WorkItem} {place : Nat → Nat}

theorem unitItems_whole
    (narrows : Narrows compiler placement units whole part place) :
    (TaskGraph.ofItems whole).unitItems = List.range whole.length := by
  apply unitItems_ofItems
  intro item member
  obtain ⟨_, belongs⟩ := exists_belongsTo narrows.seated narrows.whole_ok member
  exact WorkItem.isSend_eq_false_of_unit? belongs.unit?_eq

theorem unitItems_part
    (narrows : Narrows compiler placement units whole part place) :
    (TaskGraph.ofItems part).unitItems = List.range part.length := by
  apply unitItems_ofItems
  intro item member
  obtain ⟨_, belongs⟩ := exists_belongsTo narrows.seated narrows.part_ok member
  exact WorkItem.isSend_eq_false_of_unit? belongs.unit?_eq

/-- What is made of kept items in the whole is made of the items of the part. -/
private theorem filter_made
    {α : Type} {makeWhole makePart : Nat → List α} {test : α → Bool} {rename : α → α}
    (narrows : Narrows compiler placement units whole part place)
    (same : ∀ id item, whole[id]? = some item →
      ∀ result ∈ makeWhole id, test result = placement.keeps item)
    (renames : ∀ id item, part[id]? = some item →
      makeWhole (place id) = (makePart id).map rename) :
    ((List.range whole.length).flatMap makeWhole).filter test =
      ((List.range part.length).flatMap makePart).map rename := by
  rw [filter_flatMap_items same, narrows.is_part.kept_eq, List.flatMap_map, List.map_flatMap,
    List.flatMap_def, List.flatMap_def]
  congr 1
  apply List.map_congr_left
  intro id member
  have bound : id < part.length := List.mem_range.mp member
  exact renames id part[id] (List.getElem?_eq_getElem bound)

/-! ### Requests -/

private theorem requestsOf_place
    (narrows : Narrows compiler placement units whole part place)
    {id : Nat} {item : WorkItem}
    (itemAt : part[id]? = some item) :
    (compiler.resolver units whole).requestsOf (.ofItems whole) (place id) =
      (((compiler.under placement).resolver units part).requestsOf (.ofItems part) id).map
        (Request.renamed place) := by
  have partAt : (TaskGraph.ofItems part).item? id = some item := itemAt
  have wholeAt : (TaskGraph.ofItems whole).item? (place id) = some item.serial :=
    narrows.is_part.item_at id item itemAt
  unfold Resolver.requestsOf
  rw [partAt, wholeAt]
  dsimp only [Compiler.resolver, WorkItem.unit?_serial]
  cases item.unit?.bind (units[·]?) with
  | none => rfl
  | some unit =>
      dsimp only
      rw [List.map_flatMap, List.flatMap_def, List.flatMap_def]
      congr 1
      apply List.map_congr_left
      intro access _
      unfold Resolver.requests
      rw [List.map_flatMap]
      have each :
          ∀ target : Target,
            ((materialKeys access item).map fun material =>
              (⟨id, item, unit, access, target, material⟩ : Request)).map
                (Request.renamed place) =
              (materialKeys access item).map fun material =>
                ⟨place id, item.serial, unit, access, target, material⟩ := by
        intro target
        rw [List.map_map]
        rfl
      simp only [each]
      rfl

/-- The requests of kept items are those that are asked in the part. -/
theorem filter_agenda
    (narrows : Narrows compiler placement units whole part place) :
    (compiler.agenda units whole).filter (fun request => placement.keeps request.item) =
      ((compiler.under placement).agenda units part).map (Request.renamed place) := by
  unfold Compiler.agenda Resolver.agenda
  rw [narrows.unitItems_whole, narrows.unitItems_part]
  apply narrows.filter_made
  · intro id item itemAt request member
    obtain ⟨asks, rfl⟩ := Resolver.mem_requestsOf.mp member
    have sameItem : item = request.item := Option.some.inj (itemAt.symm.trans asks.item_at)
    rw [sameItem]
  · intro id item itemAt
    exact narrows.requestsOf_place itemAt

/-! ### Recordings -/

/-- Every item stands on one region, and belongs to one of the units. -/
theorem exists_region
    (narrows : Narrows compiler placement units whole part place)
    {id : Nat} {item : WorkItem}
    (itemAt : whole[id]? = some item) :
    ∃ unit ∈ units, ∃ region, item.BelongsTo units unit ∧ item.regions = [region] := by
  obtain ⟨unit, region, _, belongs, _, itemEq⟩ :=
    exists_slot narrows.seated narrows.regional narrows.whole_ok (List.mem_of_getElem? itemAt)
  refine ⟨unit, List.mem_of_getElem? belongs.unit_at, region, belongs, ?_⟩
  rw [itemEq]
  rfl

/-- What an item records is seen exactly if the item is kept. -/
private theorem sees_eq_keeps
    (narrows : Narrows compiler placement units whole part place)
    {id : Nat} {item : WorkItem} {recording : Recording}
    (itemAt : whole[id]? = some item)
    (member : recording ∈ recordingsAt units (.ofItems whole) id) :
    placement.sees recording.key = placement.keeps item := by
  have atPlace : (TaskGraph.ofItems whole).item? id = some item := itemAt
  obtain ⟨unit, access, unitOf, produced, keyMember⟩ := mem_recordingsAt atPlace member
  obtain ⟨owner, ownerMember, region, belongs, regionsEq⟩ := narrows.exists_region itemAt
  have sameUnit : owner = unit := Option.some.inj (belongs.unit_of.symm.trans unitOf)
  subst sameUnit
  have regional := narrows.regional owner ownerMember
  have declared : access ∈ owner.consumed ++ owner.produced := List.mem_append_right _ produced
  have placed : item.regions ≠ [] := by
    rw [regionsEq]
    exact List.cons_ne_nil _ _
  obtain ⟨_, ⟨held, inItem, _, keyRegion⟩, _⟩ :=
    (mem_producedKeys_of_bound (regional.bound access declared)
      (regional.not_reduction access declared) placed).mp keyMember
  rw [regionsEq, List.mem_singleton] at inItem
  unfold Placement.sees Placement.keeps
  rw [keyRegion, regionsEq, inItem, List.all_cons, List.all_nil, Bool.and_true]
  rfl

private theorem recordingsAt_place
    (narrows : Narrows compiler placement units whole part place)
    {id : Nat} {item : WorkItem}
    (itemAt : part[id]? = some item) :
    recordingsAt units (.ofItems whole) (place id) =
      (recordingsAt units (.ofItems part) id).map (Recording.renamed place) := by
  have partAt : (TaskGraph.ofItems part).item? id = some item := itemAt
  have wholeAt : (TaskGraph.ofItems whole).item? (place id) = some item.serial :=
    narrows.is_part.item_at id item itemAt
  unfold recordingsAt
  rw [partAt, wholeAt]
  dsimp only [WorkItem.unit?_serial]
  cases item.unit?.bind (units[·]?) with
  | none => rfl
  | some unit =>
      dsimp only
      rw [List.map_flatMap]
      have each :
          ∀ access : Access,
            ((producedKeys access item).map fun key =>
              (⟨key, id, item.order, access.mode⟩ : Recording)).map (Recording.renamed place) =
              (producedKeys access item).map fun key =>
                ⟨key, place id, item.order, access.mode⟩ := by
        intro access
        rw [List.map_map]
        rfl
      simp only [each]
      rfl

/-- What is recorded in the neighborhood is what is recorded in the part. -/
theorem filter_allRecordings
    (narrows : Narrows compiler placement units whole part place) :
    (allRecordings units (.ofItems whole)).filter (fun recording =>
        placement.sees recording.key) =
      (allRecordings units (.ofItems part)).map (Recording.renamed place) := by
  rw [allRecordings_eq_flatMap, allRecordings_eq_flatMap, narrows.unitItems_whole,
    narrows.unitItems_part]
  apply narrows.filter_made
  · intro id item itemAt recording member
    exact narrows.sees_eq_keeps itemAt member
  · intro id item itemAt
    exact narrows.recordingsAt_place itemAt

/-! ### Lookups -/

private theorem entriesAt_renamed
    (narrows : Narrows compiler placement units whole part place)
    {key : ValueKey}
    (seen : placement.sees key = true) :
    (compiler.resolver units whole).index.entriesAt key =
      (((compiler.under placement).resolver units part).index.entriesAt key).map
        (ProducerEntry.renamed place) := by
  have unseenLater :
      (allRecordings units (.ofItems whole)).filter (fun recording =>
          decide (recording.key = key)) =
        ((allRecordings units (.ofItems whole)).filter fun recording =>
          placement.sees recording.key).filter fun recording => decide (recording.key = key) := by
    rw [List.filter_filter]
    apply List.filter_congr
    intro recording _
    by_cases same : recording.key = key
    · rw [same, seen, Bool.and_true]
    · rw [decide_eq_false same, Bool.false_and]
  show ((allRecordings units (.ofItems whole)).filter fun recording =>
      decide (recording.key = key)).map Recording.entry =
    (((allRecordings units (.ofItems part)).filter fun recording =>
      decide (recording.key = key)).map Recording.entry).map (ProducerEntry.renamed place)
  rw [unseenLater, narrows.filter_allRecordings, List.filter_map, List.map_map, List.map_map]
  rfl

private theorem visible_renamed
    (narrows : Narrows compiler placement units whole part place)
    {key : ValueKey}
    (seen : placement.sees key = true) :
    (compiler.resolver units whole).index.visible key =
      (((compiler.under placement).resolver units part).index.visible key).map
        (ProducerEntry.renamed place) := by
  have everywhere :
      (compiler.resolver units whole).index.entriesAt { key with region := none } =
        (((compiler.under placement).resolver units part).index.entriesAt
          { key with region := none }).map (ProducerEntry.renamed place) :=
    narrows.entriesAt_renamed rfl
  unfold ProducerIndex.visible
  rw [everywhere, List.map_append]
  cases key.region with
  | none => rfl
  | some region =>
      dsimp only
      rw [narrows.entriesAt_renamed seen]

/-- Lookups agree on the neighborhood. -/
theorem findProducer?_renamed
    (narrows : Narrows compiler placement units whole part place)
    {key : ValueKey}
    (seen : placement.sees key = true)
    (order : Nat) :
    (compiler.resolver units whole).index.findProducer? key order =
      (((compiler.under placement).resolver units part).index.findProducer? key order).map
        (ProducerEntry.renamed place) := by
  have nearerRenamed :
      ∀ (entries : List ProducerEntry) (best : Option ProducerEntry),
        (entries.map (ProducerEntry.renamed place)).foldl ProducerIndex.nearer
            (best.map (ProducerEntry.renamed place)) =
          (entries.foldl ProducerIndex.nearer best).map (ProducerEntry.renamed place) := by
    intro entries
    induction entries with
    | nil => exact fun _ => rfl
    | cons head tail inductionHypothesis =>
        intro best
        rw [List.map_cons, List.foldl_cons, List.foldl_cons, ← inductionHypothesis]
        congr 1
        cases best with
        | none => rfl
        | some held =>
            by_cases lower : head.order < held.order
            · show (if head.order < held.order then _ else _) =
                Option.map _ (if head.order < held.order then _ else _)
              rw [if_pos lower, if_pos lower]
              rfl
            · show (if head.order < held.order then _ else _) =
                Option.map _ (if head.order < held.order then _ else _)
              rw [if_neg lower, if_neg lower]
              rfl
  rw [ProducerIndex.findProducer?_eq, ProducerIndex.findProducer?_eq]
  unfold ProducerIndex.candidates
  rw [narrows.visible_renamed seen, List.filter_map]
  exact nearerRenamed _ none

end Narrows

end MeshTasks
