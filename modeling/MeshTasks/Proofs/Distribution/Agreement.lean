import MeshTasks.Proofs.DataPaths
import MeshTasks.Proofs.Distribution.Enclosure

/-!
# Distributed compilation

Each process compiles for itself, with the items around its own regions only.
What it compiles agrees with the serial compilation where it matters to it: the
items on its regions wait for the same items, for the same values.
-/

namespace MeshTasks

namespace Narrows

variable {compiler : Compiler} {placement : Placement} {units : List WorkUnit}
  {whole part : List WorkItem} {place : Nat → Nat}

private theorem unit?_renamed
    (narrows : Narrows compiler placement units whole part place)
    {recording : Recording}
    (member : recording ∈ allRecordings units (.ofItems part)) :
    (recording.renamed place).unit? (.ofItems whole) = recording.unit? (.ofItems part) := by
  obtain ⟨item, _, _, made⟩ := mem_allRecordings.mp member
  have wholeAt :
      (TaskGraph.ofItems whole).item? (recording.renamed place).entry.item = some item.serial :=
    narrows.is_part.item_at recording.entry.item item made.item_at
  unfold Recording.unit?
  rw [made.item_at, wholeAt]
  rfl

private theorem agreed_part
    (narrows : Narrows compiler placement units whole part place)
    (agreed :
      (allRecordings units (.ofItems whole)).Pairwise (Recording.Agrees (.ofItems whole))) :
    (allRecordings units (.ofItems part)).Pairwise (Recording.Agrees (.ofItems part)) := by
  have kept := agreed.filter fun recording => placement.sees recording.key
  rw [narrows.filter_allRecordings, List.pairwise_map] at kept
  refine kept.imp_of_mem fun {earlier later} earlierMember laterMember agrees => ?_
  intro notReduction sameKey earlierComputes laterComputes
  have sameUnit := agrees notReduction sameKey earlierComputes laterComputes
  rw [narrows.unit?_renamed earlierMember, narrows.unit?_renamed laterMember] at sameUnit
  exact sameUnit

private theorem hasTargets_part
    (narrows : Narrows compiler placement units whole part place)
    (hasTargets : ∀ id ∈ (TaskGraph.ofItems whole).unitItems,
      (compiler.resolver units whole).HasTargets (.ofItems whole) id) :
    ∀ id ∈ (TaskGraph.ofItems part).unitItems,
      ((compiler.under placement).resolver units part).HasTargets (.ofItems part) id := by
  intro id member item unit itemAt unitOf access consumed
  have wholeAt : (TaskGraph.ofItems whole).item? (place id) = some item.serial :=
    narrows.is_part.item_at id item itemAt
  have inWhole : place id ∈ (TaskGraph.ofItems whole).unitItems := by
    rw [narrows.unitItems_part, List.mem_range] at member
    rw [narrows.unitItems_whole, List.mem_range]
    exact narrows.is_part.place_lt member
  exact hasTargets (place id) inWhole item.serial unit wholeAt unitOf access consumed

/-- Who runs an item of the part. -/
private theorem process_part
    (narrows : Narrows compiler placement units whole part place)
    {id : Nat} {item : WorkItem} {region : RegionId} {owner : ProcessId}
    (itemAt : part[id]? = some item)
    (regionsEq : item.regions = [region])
    (owned : placement.owner? region = some owner) :
    item.process = owner := by
  obtain ⟨unit, held, _, _, _, itemEq⟩ :=
    exists_slot narrows.seated narrows.regional narrows.part_ok (List.mem_of_getElem? itemAt)
  have sameRegion : held = region := by
    rw [itemEq] at regionsEq
    exact List.singleton_injective regionsEq
  rw [itemEq, sameRegion]
  show (placement.assign [region]) = owner
  unfold Placement.assign
  rw [List.head?_cons, Option.bind_some, owned, Option.getD_some]

/-- Every request of the part is served: from its producers if it concerns a
local region, and otherwise it is a matter of others. -/
private theorem served_part
    {process : ProcessId} {owners : OwnerTable} {width : Coord}
    (narrows : Narrows compiler placement units whole part place)
    (serial : compiler.placement.IsSerial compiler.grid)
    (stay : ∀ unit ∈ units, unit.StaysWithin width)
    (indexed : compiler.grid.Indexed)
    (covers : placement.CoversHalo compiler.grid process owners width)
    (owned : ∀ region, (compiler.grid.region? region).isSome = true →
      (owners.lookup region).isSome = true)
    (served : ∀ request ∈ compiler.agenda units whole,
      (compiler.resolver units whole).Served request) :
    ∀ request ∈ (compiler.under placement).agenda units part,
      ((compiler.under placement).resolver units part).Served request := by
  intro request member newLike noProducers
  have encloses := narrows.encloses_of_coversHalo stay indexed covers
  have asks := narrows.asks_renamed member
  obtain ⟨bound, region, regionsEq, regionEq, boundPresent, present, _⟩ :=
    narrows.exists_reach_of_asks stay indexed asks
  -- A request that is seen finds the producers it finds in the whole, and there it needs some.
  have unseen : ¬ placement.sees request.key = true := by
    intro seen
    have noneInWhole :
        (compiler.resolver units whole).producers (request.renamed place) = [] := by
      rw [narrows.producers_renamed (narrows.not_reduction member) seen, noProducers]
      rfl
    have remote := served (request.renamed place) (Resolver.mem_agenda.mpr asks) newLike noneInWhole
    have notSame := of_decide_eq_true (Bool.and_eq_true_iff.mp remote).1
    exact notSame serial.localProcess_eq.symm
  have boundForeign : owners.lookup bound ≠ some process := by
    intro isLocal
    apply unseen
    refine encloses.targets_seen (request.renamed place) asks ⟨bound, ?_, isLocal⟩
    rw [regionsEq]
    exact List.mem_singleton_self bound
  have regionForeign : owners.lookup region ≠ some process := by
    intro isLocal
    apply unseen
    have keyRegion : request.key.region = some region := regionEq
    unfold Placement.sees
    rw [keyRegion]
    exact encloses.locals_near region present isLocal
  obtain ⟨runner, runnerEq⟩ := Option.isSome_iff_exists.mp (owned bound boundPresent)
  obtain ⟨owner, ownerEq⟩ := Option.isSome_iff_exists.mp (owned region present)
  have boundOwner : placement.owner? bound = some runner := by
    unfold Placement.owner?
    rw [covers.owners_eq, runnerEq]
  have targetOwner : request.target.region?.bind placement.owner? = some owner := by
    have targetEq : request.target.region? = some region := regionEq
    unfold Placement.owner?
    rw [targetEq, Option.bind_some, covers.owners_eq, ownerEq]
  have itemAt : part[request.id]? = some request.item := (Resolver.mem_agenda.mp member).item_at
  have processEq := narrows.process_part itemAt regionsEq boundOwner
  have samePlacement :
      ((compiler.under placement).resolver units part).placement = placement := rfl
  unfold Resolver.isRemote
  rw [samePlacement, targetOwner, processEq, covers.localProcess_eq, Bool.and_eq_true,
    decide_eq_true_eq]
  refine ⟨fun same => boundForeign (same ▸ runnerEq), ?_⟩
  exact decide_eq_true fun same => regionForeign (same ▸ ownerEq)

end Narrows

/-- A part of a graph agrees with the whole on some regions. Its items are items
of the whole, but for the process that runs them, at places that differ; all
items on these regions are among them; and into an item on these regions lead
the same edges, in the same order. -/
structure TaskGraph.AgreesOn (isLocal : RegionId → Prop) (whole part : TaskGraph)
    (place : Nat → Nat) : Prop where
  injective : Function.Injective place
  item_at : ∀ id item, part.item? id = some item →
    ∃ process, whole.item? (place id) = some { item with process := process }
  covers : ∀ position item, whole.item? position = some item →
    (∃ region ∈ item.regions, isLocal region) → ∃ id item, part.item? id = some item ∧
      place id = position
  incoming_eq : ∀ id item, part.item? id = some item →
    (∃ region ∈ item.regions, isLocal region) →
      (whole.incoming (place id)).map Prod.snd =
        ((part.incoming id).map Prod.snd).map (Edge.renamed place)

/-- The send items of a part have the places of those of the whole. -/
def SameSends (compiler : Compiler) (placement : Placement) (units : List WorkUnit)
    (whole part : List WorkItem) (place : Nat → Nat) : Prop :=
  ∀ region ∈ Resolver.suppliers ((compiler.under placement).agenda units part),
    place ((compiler.under placement).sendPlace units part region) =
      compiler.sendPlace units whole region

namespace Narrows

variable {compiler : Compiler} {placement : Placement} {units : List WorkUnit}
  {whole part : List WorkItem} {place : Nat → Nat} {isLocal : RegionId → Prop}

/-- The requests of a local item are served in the part as in the whole. -/
private theorem edges_into_renamed
    (narrows : Narrows compiler placement units whole part place)
    (encloses : Encloses compiler placement units whole isLocal)
    (sameSend : SameSends compiler placement units whole part place)
    {id : Nat} {item : WorkItem}
    (itemAt : part[id]? = some item)
    (onLocal : ∃ region ∈ item.regions, isLocal region) :
    ((compiler.agenda units whole).filter fun request =>
        decide (request.id = place id)).flatMap
        ((compiler.resolver units whole).edgesAmong (compiler.sendPlace units whole)
          (compiler.agenda units whole)) =
      ((((compiler.under placement).agenda units part).filter fun request =>
        decide (request.id = id)).flatMap
        (((compiler.under placement).resolver units part).edgesAmong
          ((compiler.under placement).sendPlace units part)
          ((compiler.under placement).agenda units part))).map (Edge.renamed place) := by
  have bound := (List.getElem?_eq_some_iff.mp itemAt).1
  rw [narrows.filter_agenda_place bound, List.flatMap_map, List.map_flatMap, List.flatMap_def,
    List.flatMap_def]
  congr 1
  apply List.map_congr_left
  intro request member
  obtain ⟨inAgenda, atId⟩ := List.mem_filter.mp member
  have requestAt : part[request.id]? = some request.item :=
    (Resolver.mem_agenda.mp inAgenda).item_at
  rw [of_decide_eq_true atId, itemAt] at requestAt
  have sameItem : item = request.item := Option.some.inj requestAt
  rw [sameItem] at onLocal
  have asks := narrows.asks_renamed inAgenda
  apply narrows.edgesAmong_renamed encloses inAgenda
  · exact encloses.targets_seen (request.renamed place) asks onLocal
  · intro modifies
    obtain ⟨region, regionsEq, regionEq⟩ :=
      encloses.modified_own (request.renamed place) asks modifies
    obtain ⟨held, inItem, isLocalHeld⟩ := onLocal
    have itemRegions : request.item.regions = [region] := regionsEq
    rw [itemRegions, List.mem_singleton] at inItem
    exact ⟨region, regionEq, inItem ▸ isLocalHeld⟩
  · intro prior
    exact (sameSend _ (Resolver.mem_suppliers inAgenda prior)).symm

end Narrows

namespace Compiler.Built

variable {compiler : Compiler} {units : List WorkUnit} {items : List WorkItem}
  {compiled : Compiled}

/-- No edge leads to a send item. -/
private theorem incoming_of_send
    (built : compiler.Built units items compiled)
    {id : Nat}
    (behind : items.length ≤ id) :
    (compiled.graph.incoming id).map Prod.snd = [] := by
  have noRequests :
      (compiler.agenda compiled.units items).filter (fun request => decide (request.id = id)) =
        [] := by
    rw [List.filter_eq_nil_iff]
    intro request member
    have bound := id_lt (Resolver.mem_agenda.mp member)
    rw [decide_eq_true_eq]
    omega
  rw [built.incoming_eq, noRequests]
  rfl

variable {placement : Placement} {distributed : Compiled} {part : List WorkItem}
  {place : Nat → Nat} {isLocal : RegionId → Prop}

/-- An item of the part is an item of the whole, run by the first process
there. -/
private theorem item?_of_part
    (built : compiler.Built units items compiled)
    (partBuilt : (compiler.under placement).Built units part distributed)
    (sameUnits : distributed.units = compiled.units)
    (narrows : Narrows compiler placement compiled.units items part place)
    (sameSend : SameSends compiler placement compiled.units items part place)
    {id : Nat} {item : WorkItem}
    (itemAt : distributed.graph.item? id = some item) :
    ∃ process, compiled.graph.item? (place id) = some { item with process := process } := by
  by_cases ofUnit : id < part.length
  · have heldAt := partBuilt.getElem?_of_item? ofUnit itemAt
    exact ⟨⟨0⟩, built.item?_of_getElem? (narrows.is_part.item_at id item heldAt)⟩
  · obtain ⟨region, member, rfl, rfl⟩ :=
      partBuilt.exists_supplier (Nat.le_of_not_lt ofUnit) itemAt
    rw [sameUnits] at member ⊢
    rw [sameSend region member]
    exact ⟨_, built.item?_sendPlace (narrows.suppliers_subset member)⟩

/-- An item of a unit on an enclosed region is in the part. -/
private theorem exists_part_of_unit
    (built : compiler.Built units items compiled)
    (partBuilt : (compiler.under placement).Built units part distributed)
    (narrows : Narrows compiler placement compiled.units items part place)
    (encloses : Encloses compiler placement compiled.units items isLocal)
    {position : Nat} {item : WorkItem} {region : RegionId}
    (heldAt : items[position]? = some item)
    (inItem : region ∈ item.regions)
    (isLocalRegion : isLocal region) :
    ∃ id item, distributed.graph.item? id = some item ∧ place id = position := by
  obtain ⟨_, _, bound, _, regionsEq⟩ := narrows.exists_region heldAt
  have atBound : region = bound := by
    rw [regionsEq] at inItem
    exact List.mem_singleton.mp inItem
  have present :=
    isSome_region?_of_mem_items narrows.regional built.items_ok
      (List.mem_of_getElem? heldAt) inItem
  have kept : placement.keeps item = true := by
    unfold Placement.keeps
    rw [regionsEq, ← atBound, List.all_cons, List.all_nil, Bool.and_true]
    exact encloses.locals_near region present isLocalRegion
  obtain ⟨id, inPart, placeEq⟩ := narrows.is_part.exists_place heldAt kept
  exact ⟨id, part[id],
    partBuilt.item?_of_getElem? (List.getElem?_eq_getElem inPart), placeEq⟩

/-- The send item of an enclosed region is in the part, for whoever asks for
what it sends is there. -/
private theorem exists_part_of_send
    (partBuilt : (compiler.under placement).Built units part distributed)
    (sameUnits : distributed.units = compiled.units)
    (narrows : Narrows compiler placement compiled.units items part place)
    (encloses : Encloses compiler placement compiled.units items isLocal)
    (sameSend : SameSends compiler placement compiled.units items part place)
    {region : RegionId}
    (member : some region ∈ Resolver.suppliers (compiler.agenda compiled.units items))
    (isLocalRegion : isLocal region) :
    ∃ id item, distributed.graph.item? id = some item ∧
      place id = compiler.sendPlace compiled.units items (some region) := by
  obtain ⟨request, requestMember, prior, regionEq⟩ :=
    Resolver.exists_request_of_mem_suppliers member
  have asks := Resolver.mem_agenda.mp requestMember
  have kept := encloses.askers_kept request region asks regionEq isLocalRegion
  have inFilter :
      request ∈ (compiler.agenda compiled.units items).filter fun request =>
        placement.keeps request.item :=
    List.mem_filter.mpr ⟨requestMember, kept⟩
  rw [narrows.filter_agenda] at inFilter
  obtain ⟨asked, askedMember, rfl⟩ := List.mem_map.mp inFilter
  have supplied := Resolver.mem_suppliers askedMember prior
  have suppliedHere :
      some region ∈
        Resolver.suppliers ((compiler.under placement).agenda compiled.units part) :=
    regionEq ▸ supplied
  have sendAt := partBuilt.item?_sendPlace (sameUnits.symm ▸ suppliedHere)
  refine ⟨_, _, sendAt, ?_⟩
  rw [sameUnits]
  exact sameSend (some region) suppliedHere

/-- The edges into an item on an enclosed region are the same in the part. -/
private theorem incoming_of_part
    (built : compiler.Built units items compiled)
    (partBuilt : (compiler.under placement).Built units part distributed)
    (sameUnits : distributed.units = compiled.units)
    (narrows : Narrows compiler placement compiled.units items part place)
    (encloses : Encloses compiler placement compiled.units items isLocal)
    (sameSend : SameSends compiler placement compiled.units items part place)
    {id : Nat} {item : WorkItem}
    (itemAt : distributed.graph.item? id = some item)
    (onLocal : ∃ region ∈ item.regions, isLocal region) :
    (compiled.graph.incoming (place id)).map Prod.snd =
      ((distributed.graph.incoming id).map Prod.snd).map (Edge.renamed place) := by
  by_cases ofUnit : id < part.length
  · have heldAt := partBuilt.getElem?_of_item? ofUnit itemAt
    rw [built.incoming_eq, partBuilt.incoming_eq, sameUnits,
      narrows.edges_into_renamed encloses sameSend heldAt onLocal, ← Edge.gather_renamed]
    · rfl
    · exact narrows.injective
  · obtain ⟨region, member, rfl, _⟩ :=
      partBuilt.exists_supplier (Nat.le_of_not_lt ofUnit) itemAt
    rw [sameUnits] at member
    have behind :
        items.length ≤ place
          ((compiler.under placement).sendPlace distributed.units part region) := by
      rw [sameUnits, sameSend region member]
      exact Nat.le_add_right _ _
    rw [built.incoming_of_send behind, partBuilt.incoming_of_send (Nat.le_of_not_lt ofUnit)]
    rfl

/-- A narrowed compilation agrees with the whole one on the regions that its
placement encloses. -/
theorem agreesOn
    (built : compiler.Built units items compiled)
    (partBuilt : (compiler.under placement).Built units part distributed)
    (sameUnits : distributed.units = compiled.units)
    (narrows : Narrows compiler placement compiled.units items part place)
    (encloses : Encloses compiler placement compiled.units items isLocal)
    (sameSend : SameSends compiler placement compiled.units items part place) :
    TaskGraph.AgreesOn isLocal compiled.graph distributed.graph place where
  injective := narrows.injective
  item_at := fun _ _ itemAt => built.item?_of_part partBuilt sameUnits narrows sameSend itemAt
  covers := by
    intro position item itemAt onLocal
    obtain ⟨region, inItem, isLocalRegion⟩ := onLocal
    by_cases ofUnit : position < items.length
    · have heldAt := built.getElem?_of_item? ofUnit itemAt
      exact built.exists_part_of_unit partBuilt narrows encloses heldAt inItem isLocalRegion
    · obtain ⟨supplier, member, rfl, rfl⟩ :=
        built.exists_supplier (Nat.le_of_not_lt ofUnit) itemAt
      have supplierEq : supplier = some region := Option.mem_toList.mp inItem
      rw [supplierEq] at member ⊢
      exact partBuilt.exists_part_of_send sameUnits narrows encloses sameSend member isLocalRegion
  incoming_eq := fun _ _ itemAt onLocal =>
    built.incoming_of_part partBuilt sameUnits narrows encloses sameSend itemAt onLocal

/-- A compilation that succeeds under the serial placement succeeds under a
placement whose halo is wide enough. -/
theorem exists_distributed
    {process : ProcessId} {owners : OwnerTable} {width : Coord}
    (built : compiler.Built units items compiled)
    (narrows : Narrows compiler placement compiled.units items part place)
    (serial : compiler.placement.IsSerial compiler.grid)
    (stay : ∀ unit ∈ compiled.units, unit.StaysWithin width)
    (indexed : compiler.grid.Indexed)
    (covers : placement.CoversHalo compiler.grid process owners width)
    (owned : ∀ region, (compiler.grid.region? region).isSome = true →
      (owners.lookup region).isSome = true) :
    ∃ distributed, distributed.units = compiled.units ∧
      (compiler.under placement).Built units part distributed := by
  let final :=
    ((compiler.under placement).agenda compiled.units part).foldl
      ((compiler.under placement).resolver compiled.units part).advance (.start (.ofItems part))
  refine ⟨⟨compiled.units, final.graph, final.warnings⟩, rfl, ?_⟩
  exact {
    sorted_ok := built.sorted_ok
    items_ok := narrows.part_ok
    agreed := narrows.agreed_part built.agreed
    has_targets := narrows.hasTargets_part built.has_targets
    served := narrows.served_part serial stay indexed covers owned built.served
    graph_eq := rfl
    warnings_eq := rfl }

end Compiler.Built

/-- Distributed compilation agrees with serial compilation. If the serial
compilation succeeds, so does that of any process whose halo is as wide as the
accesses reach. It orders the units alike, and its graph agrees with the serial
one on the regions of the process. -/
theorem Compiler.distributed_agrees
    {grid : Grid} {whole halo : Placement} {settings : Settings} {units : List WorkUnit}
    {serial : Compiled} {process : ProcessId} {owners : OwnerTable} {width : Coord}
    (indexed : grid.Indexed)
    (owned : ∀ region ∈ grid.regions, (owners.lookup region.id).isSome = true)
    (wide : 0 ≤ width.val)
    (stay : ∀ unit ∈ units, unit.StaysWithin width)
    (serialOk : Placement.serial grid = .ok whole)
    (haloOk : Placement.withinHalo grid process owners width = .ok halo)
    (compiledOk : (⟨grid, whole, settings⟩ : Compiler).compile units = .ok serial) :
    ∃ distributed, (⟨grid, halo, settings⟩ : Compiler).compile units = .ok distributed ∧
      distributed.units = serial.units ∧
        ∃ place, TaskGraph.AgreesOn (fun region => owners.lookup region = some process)
          serial.graph distributed.graph place := by
  obtain ⟨checked, valid, items, built⟩ := compile_eq_ok_iff.mp compiledOk
  have isSerial := Placement.isSerial_serial serialOk
  have covers := Placement.coversHalo_withinHalo wide haloOk
  have stayHere : ∀ unit ∈ serial.units, unit.StaysWithin width := by
    intro unit member
    obtain ⟨position, unitAt⟩ := List.mem_iff_getElem?.mp member
    obtain ⟨original, originalMember, phase, rfl⟩ :=
      (sortUnits_sorted built.sorted_ok).seated unitAt
    exact (stay original originalMember).seated (some position) phase
  have regional : ∀ unit ∈ serial.units, unit.Regional :=
    fun unit member => (stayHere unit member).regional
  have ownedHere :
      ∀ region, (grid.region? region).isSome = true →
        (owners.lookup region).isSome = true := by
    intro region present
    obtain ⟨found, foundEq⟩ := Option.isSome_iff_exists.mp present
    obtain ⟨member, rfl⟩ := Grid.region?_eq_some_iff.mp foundEq
    exact owned found member
  have onGrid := onGrid_of_instantiateAll regional built.items_ok
  have partOk :
      instantiateAll grid settings halo serial.units =
        .ok (serial.units.zipIdx.flatMap fun pair => slotItems halo pair.2 pair.1) :=
    instantiateAll_of_onGrid regional onGrid
  have narrows := narrows_placeOfPart built.seated regional isSerial built.items_ok partOk
  have filtered := filter_instantiateAll isSerial regional built.items_ok partOk
  obtain ⟨distributed, sameUnits, partBuilt⟩ :=
    built.exists_distributed narrows isSerial stayHere indexed covers ownedHere
  refine ⟨distributed, compile_eq_ok_iff.mpr ⟨checked, valid, _, partBuilt⟩, sameUnits,
    placeOfPart ⟨grid, whole, settings⟩ halo serial.units items
      (serial.units.zipIdx.flatMap fun pair => slotItems halo pair.2 pair.1), ?_⟩
  apply built.agreesOn partBuilt sameUnits narrows
    (narrows.encloses_of_coversHalo stayHere indexed covers)
  intro region member
  exact placeOfPart_sendPlace filtered member

/-! ## A row of three regions on two processes -/

namespace Row

def twelve : Coord := ⟨12, by decide, by decide⟩

/-- A level of three cubes side by side along `x`. -/
def longLevel : Level where
  index := 0
  ratio := .one
  periodic := .none
  regions := [⟨⟨0⟩, 0, ⟨.zero, .splat four⟩⟩, ⟨⟨1⟩, 0, ⟨⟨four, .zero, .zero⟩, ⟨eight, four, four⟩⟩⟩,
    ⟨⟨2⟩, 0, ⟨⟨eight, .zero, .zero⟩, ⟨twelve, four, four⟩⟩⟩]
  domain := ⟨.zero, ⟨twelve, four, four⟩⟩
  widest := four
  coherent := by constructor <;> decide

def longGrid : Grid := ⟨[longLevel], by decide⟩

/-- The first process owns two cubes, the second process the right one. -/
def owners : OwnerTable := [(⟨0⟩, ⟨0⟩), (⟨1⟩, ⟨0⟩), (⟨2⟩, ⟨1⟩)]

def wholeRow : Placement :=
  ⟨⟨0⟩, 1, [(⟨0⟩, ⟨0⟩), (⟨1⟩, ⟨0⟩), (⟨2⟩, ⟨0⟩)], .ofList [⟨0⟩, ⟨1⟩, ⟨2⟩]⟩

/-- What the second process sees of the row within one cell of its cube. -/
def rightOfRow : Placement := ⟨⟨1⟩, 2, owners, .ofList [⟨1⟩, ⟨2⟩]⟩

/-- Every cube reads around itself what was there before, and then what is
new. -/
def readTwice : List WorkUnit := [
  (unit "advance" [⟨0⟩, ⟨1⟩, ⟨2⟩]).computing (.of density) |>.requiring
    { around with binding := .old },
  (unit "measure" [⟨0⟩, ⟨1⟩, ⟨2⟩]).requiring around]

/-- What compiling some units on the long row gives, nothing if it fails. -/
def resultUnder (placement : Placement) (units : List WorkUnit) : Compiled :=
  match (⟨longGrid, placement, .standard⟩ : Compiler).compile units with
  | .ok compiled => compiled
  | .error _ => ⟨[], .empty, []⟩

private theorem staysWithin_readTwice : ∀ unit ∈ readTwice, unit.StaysWithin .one := by
  intro held member
  rcases List.mem_cons.mp member with rfl | member
  · exact {
      regional := ⟨rfl, rfl, rfl, by decide, by decide, by decide⟩
      declared := ((declared_unit _ _).computing _).requiring _
      bounded := by decide
      narrow := by decide }
  · rw [List.mem_singleton.mp member]
    exact {
      regional := ⟨rfl, rfl, rfl, by decide, by decide, by decide⟩
      declared := (declared_unit _ _).requiring _
      bounded := by decide
      narrow := by decide }

end Row

theorem distributed_agrees_row :
    Placement.serial Row.longGrid = .ok Row.wholeRow ∧
      Placement.withinHalo Row.longGrid ⟨1⟩ Row.owners .one = .ok Row.rightOfRow ∧
      (Row.resultUnder Row.wholeRow Row.readTwice).graph.unitItems.length = 6 ∧
      (Row.resultUnder Row.rightOfRow Row.readTwice).graph.unitItems.length = 4 ∧
      ∃ place, TaskGraph.AgreesOn (fun region => Row.owners.lookup region = some ⟨1⟩)
        (Row.resultUnder Row.wholeRow Row.readTwice).graph
        (Row.resultUnder Row.rightOfRow Row.readTwice).graph place := by
  have serialOk : Placement.serial Row.longGrid = .ok Row.wholeRow := rfl
  have haloOk : Placement.withinHalo Row.longGrid ⟨1⟩ Row.owners .one = .ok Row.rightOfRow := rfl
  have compiledOk :
      (⟨Row.longGrid, Row.wholeRow, .standard⟩ : Compiler).compile Row.readTwice =
        .ok (Row.resultUnder Row.wholeRow Row.readTwice) := rfl
  have partOk :
      (⟨Row.longGrid, Row.rightOfRow, .standard⟩ : Compiler).compile Row.readTwice =
        .ok (Row.resultUnder Row.rightOfRow Row.readTwice) := rfl
  have indexed : Row.longGrid.Indexed := by
    intro position level levelAt
    obtain ⟨bound, levelEq⟩ := List.getElem?_eq_some_iff.mp levelAt
    have atZero : position = 0 := Nat.lt_one_iff.mp bound
    subst atZero
    rw [← levelEq]
    rfl
  obtain ⟨distributed, distributedOk, _, place, agrees⟩ :=
    Compiler.distributed_agrees indexed (by decide) (by decide) Row.staysWithin_readTwice serialOk
      haloOk compiledOk
  rw [partOk] at distributedOk
  cases distributedOk
  exact ⟨serialOk, haloOk, rfl, rfl, place, agrees⟩

end MeshTasks
