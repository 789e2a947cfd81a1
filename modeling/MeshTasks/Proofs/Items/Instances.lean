import Mathlib.Data.List.Forall2
import Mathlib.Data.List.ProdSigma
import MeshTasks.Proofs.FirstExecution
import MeshTasks.Proofs.Units.Regional

/-!
# How often a unit is instantiated

The items of a blueprint stand unit by unit. A unit that is spread has one item
for each key and each subset of its materials, where the keys are regions or
processes as its policy has it; a unit that is global has one item. However
regions are owned and whatever the neighborhood is, no item is missing and none
is there twice.
-/

namespace MeshTasks

/-- The items that name the unit at a position, in the order in which they
stand. -/
def TaskGraph.itemsNaming (graph : TaskGraph) (position : Nat) : List WorkItem :=
  graph.items.filter fun item => decide (item.unit? = some position)

namespace Placement

/-- A process of the neighborhood: the local one, or one that owns a region of
it. -/
def IsNeighbor (placement : Placement) (process : ProcessId) : Prop :=
  process = placement.localProcess ∨
    ∃ region ∈ placement.neighborhood, placement.owner? region = some process

/-- The item is bound to one region, and runs where that region is owned. -/
def RunsOn (placement : Placement) (region : RegionId) (item : WorkItem) : Prop :=
  item.regions = [region] ∧
    item.process = (placement.owner? region).getD placement.localProcess

/-- The item runs on a process and is bound to all regions of a set that the
process owns. -/
def RunsFor (placement : Placement) (regions : RegionSet) (process : ProcessId)
    (item : WorkItem) : Prop :=
  item.process = process ∧ item.regions.Nodup ∧
    ∀ region, region ∈ item.regions ↔
      region ∈ regions ∧ placement.owner? region = some process

end Placement

/-- There is one item for each key and each place of a subset of materials, as a
list of such slots tells. -/
structure Fills {α : Type} (subsets : List MaterialSubset) (isKey : α → Prop)
    (fits : α → WorkItem → Prop) (slots : List (α × Nat)) (items : List WorkItem) : Prop where
  nodup : slots.Nodup
  mem_iff : ∀ key place, (key, place) ∈ slots ↔ isKey key ∧ place < subsets.length
  each : List.Forall₂
    (fun slot item => fits slot.1 item ∧ item.materials = subsets[slot.2]?) slots items

/-- The regions that are bound for the subset at a place, item by item. -/
def boundFor {α : Type} (slots : List (α × Nat)) (items : List WorkItem) (place : Nat) :
    List RegionId :=
  ((slots.zip items).filter fun filled => decide (filled.1.2 = place)).flatMap fun filled =>
    filled.2.regions

/-- How often a unit has become an item, by its policy. -/
structure WorkUnit.Instantiated (placement : Placement) (unit : WorkUnit)
    (items : List WorkItem) : Prop where
  per_region : unit.policy = .perRegion → ∀ regions subsets,
    unit.regions = some regions → unit.materials = some subsets →
      ∃ slots, Fills subsets (fun region => region ∈ regions ∧ region ∈ placement.neighborhood)
        placement.RunsOn slots items
  once_per_process : unit.policy = .oncePerProcess → ∀ regions subsets,
    unit.regions = some regions → unit.materials = some subsets →
      ∃ slots, Fills subsets placement.IsNeighbor (placement.RunsFor regions) slots items ∧
        ∀ place < subsets.length, (boundFor slots items place).Nodup ∧
          ∀ region, region ∈ boundFor slots items place ↔
            region ∈ regions ∧
              ∃ owner, placement.owner? region = some owner ∧ placement.IsNeighbor owner
  global : unit.policy = .synchronizing ∨ unit.regions = none →
    ∃ item, items = [item] ∧ item.regions = [] ∧ item.materials = none

section Instances

variable {grid : Grid} {settings : Settings} {placement : Placement} {position : Nat}
  {unit : WorkUnit} {regions : RegionSet} {subsets : List MaterialSubset} {placed : List WorkItem}

theorem OrderedSet.nodup_toList {α : Type} [Ranked α] (set : OrderedSet α) : set.toList.Nodup :=
  Ranked.nodup_of_ascending set.ascending

theorem Placement.mem_neighborhoodProcesses_iff {process : ProcessId} :
    process ∈ placement.neighborhoodProcesses ↔ placement.IsNeighbor process := by
  unfold neighborhoodProcesses IsNeighbor
  rw [OrderedSet.mem_ofList, List.mem_append, List.mem_filterMap, List.mem_singleton, or_comm]
  rfl

theorem mem_regionsOwned_iff {process : ProcessId} {region : RegionId} :
    region ∈ regionsOwned placement regions (fun owner => decide (owner = process)) ↔
      region ∈ regions ∧ placement.owner? region = some process := by
  unfold regionsOwned
  rw [List.mem_filter, ← OrderedSet.mem_iff]
  cases placement.owner? region with
  | none => simp
  | some owner => simp

/-! ## Slots -/

section Slots

variable {α : Type} {isKey : α → Prop} {fits : α → WorkItem → Prop} {slots : List (α × Nat)}
  {items : List WorkItem}

/-- What is made for each key and each subset fills the pairs of keys and
places. -/
theorem fills_product
    {keys : List α} {make : α → MaterialSubset → WorkItem}
    (distinct : keys.Nodup)
    (areKeys : ∀ key, key ∈ keys ↔ isKey key)
    (fits_make : ∀ key subset, fits key (make key subset))
    (materials_make : ∀ key subset, (make key subset).materials = some subset) :
    Fills subsets isKey fits (keys ×ˢ List.range subsets.length)
      (keys.flatMap fun key => subsets.map (make key)) where
  nodup := distinct.product List.nodup_range
  mem_iff := by
    intro key place
    rw [← areKeys, ← List.mem_range]
    exact List.pair_mem_product
  each := by
    clear distinct areKeys
    induction keys with
    | nil => exact List.Forall₂.nil
    | cons key keys inductionHypothesis =>
        rw [List.product_cons, List.flatMap_cons]
        refine List.rel_append ?_ inductionHypothesis
        rw [List.forall₂_map_left_iff, List.forall₂_map_right_iff, List.forall₂_iff_get]
        refine ⟨List.length_range, fun place bound subsetBound => ⟨fits_make _ _, ?_⟩⟩
        simp [materials_make]

/-- Every slot has its item. -/
private theorem Fills.exists_item
    {key : α} {place : Nat}
    (fills : Fills subsets isKey fits slots items)
    (holds : isKey key)
    (bound : place < subsets.length) :
    ∃ item, ((key, place), item) ∈ slots.zip items := by
  have member := (fills.mem_iff key place).mpr ⟨holds, bound⟩
  obtain ⟨index, indexBound, atIndex⟩ := List.mem_iff_getElem.mp member
  have itemBound : index < items.length := fills.each.length_eq ▸ indexBound
  refine ⟨items[index], List.mem_iff_getElem.mpr ⟨index, ?_, ?_⟩⟩
  · rw [List.length_zip]
    omega
  · rw [List.getElem_zip, atIndex]

/-! ### Keys that own what their items are bound to -/

variable {place : Nat} {ownSlots : List (ProcessId × Nat)}

/-- No region is bound twice for a subset. -/
private theorem nodup_boundFor
    (fills : Fills subsets placement.IsNeighbor (placement.RunsFor regions) ownSlots items) :
    (boundFor ownSlots items place).Nodup := by
  obtain ⟨sameLength, each⟩ := List.forall₂_iff_zip.mp fills.each
  unfold boundFor
  rw [List.nodup_flatMap]
  constructor
  · rintro ⟨slot, item⟩ filtered
    exact (each (List.mem_of_mem_filter filtered)).1.2.1
  · have slotsApart : (ownSlots.zip items).Pairwise fun left right => left.1 ≠ right.1 := by
      rw [← List.pairwise_map, List.map_fst_zip (Nat.le_of_eq sameLength)]
      exact fills.nodup
    refine (slotsApart.filter _).imp_of_mem ?_
    rintro ⟨⟨left, leftPlace⟩, leftItem⟩ ⟨⟨right, rightPlace⟩, rightItem⟩ inLeft inRight apart
    simp only [List.mem_filter, decide_eq_true_eq] at inLeft inRight
    intro region ofLeft ofRight
    -- A region of both items has one owner, which makes the two slots the same.
    have leftOwner := (((each inLeft.1).1.2.2 region).mp ofLeft).2
    have rightOwner := (((each inRight.1).1.2.2 region).mp ofRight).2
    rw [leftOwner, Option.some.injEq] at rightOwner
    exact apart (Prod.ext rightOwner (inLeft.2.trans inRight.2.symm))

private theorem mem_boundFor_iff
    (fills : Fills subsets placement.IsNeighbor (placement.RunsFor regions) ownSlots items)
    (bound : place < subsets.length)
    (region : RegionId) :
    region ∈ boundFor ownSlots items place ↔
      region ∈ regions ∧
        ∃ owner, placement.owner? region = some owner ∧ placement.IsNeighbor owner := by
  obtain ⟨_, each⟩ := List.forall₂_iff_zip.mp fills.each
  simp only [boundFor, List.mem_flatMap, List.mem_filter, decide_eq_true_eq]
  constructor
  · rintro ⟨⟨⟨process, other⟩, item⟩, ⟨member, rfl⟩, bindsRegion⟩
    obtain ⟨inSet, owned⟩ := ((each member).1.2.2 region).mp bindsRegion
    obtain ⟨isNeighbor, _⟩ := (fills.mem_iff process other).mp (List.of_mem_zip member).1
    exact ⟨inSet, process, owned, isNeighbor⟩
  · rintro ⟨inSet, owner, owned, isNeighbor⟩
    obtain ⟨item, member⟩ := fills.exists_item isNeighbor bound
    exact ⟨((owner, place), item), ⟨member, rfl⟩,
      ((each member).1.2.2 region).mpr ⟨inSet, owned⟩⟩

end Slots

/-! ## Policies -/

private theorem placedItems_of_instantiate
    (regionsEq : unit.regions = some regions)
    (materialsEq : unit.materials = some subsets)
    (placedOk : instantiate grid settings placement position unit = .ok placed) :
    placedItems settings placement position unit regions subsets = .ok placed := by
  have known := known_of_instantiate regionsEq materialsEq placedOk
  rwa [instantiate_of_known regionsEq materialsEq known, orArithmetic_eq_ok_iff] at placedOk

private theorem fills_perRegion
    (policy : unit.policy = .perRegion)
    (placedOk : placedItems settings placement position unit regions subsets = .ok placed) :
    ∃ slots, Fills subsets (fun region => region ∈ regions ∧ region ∈ placement.neighborhood)
      placement.RunsOn slots placed := by
  simp only [placedItems, policy, Except.ok.injEq] at placedOk
  subst placedOk
  refine ⟨_, fills_product (placement.nearby regions).nodup_toList ?_ ?_ ?_⟩
  · intro region
    rw [← OrderedSet.mem_iff, Placement.nearby, OrderedSet.mem_filter]
    exact and_congr_right fun _ => decide_eq_true_iff
  · exact fun _ _ => ⟨rfl, rfl⟩
  · exact fun _ _ => rfl

private theorem fills_oncePerProcess
    (policy : unit.policy = .oncePerProcess)
    (placedOk : placedItems settings placement position unit regions subsets = .ok placed) :
    ∃ slots, Fills subsets placement.IsNeighbor (placement.RunsFor regions) slots placed := by
  simp only [placedItems, policy, Except.ok.injEq] at placedOk
  subst placedOk
  refine ⟨_, fills_product placement.neighborhoodProcesses.nodup_toList ?_ ?_ ?_⟩
  · exact fun _ => Placement.mem_neighborhoodProcesses_iff
  · intro process subset
    exact ⟨rfl, regions.nodup_toList.filter _, fun _ => mem_regionsOwned_iff⟩
  · exact fun _ _ => rfl

/-- A unit that is placed has the items of its policy, each once. -/
theorem instantiated_of_instantiate
    (placedOk : instantiate grid settings placement position unit = .ok placed) :
    unit.Instantiated placement placed where
  per_region := by
    intro policy regions subsets regionsEq materialsEq
    exact fills_perRegion policy (placedItems_of_instantiate regionsEq materialsEq placedOk)
  once_per_process := by
    intro policy regions subsets regionsEq materialsEq
    obtain ⟨slots, fills⟩ :=
      fills_oncePerProcess policy (placedItems_of_instantiate regionsEq materialsEq placedOk)
    exact ⟨slots, fills, fun place bound => ⟨nodup_boundFor fills, mem_boundFor_iff fills bound⟩⟩
  global := by
    intro isGlobal
    cases regionsEq : unit.regions with
    | none =>
        cases materialsEq : unit.materials with
        | none =>
            simp only [instantiate, regionsEq, materialsEq, Except.ok.injEq] at placedOk
            exact ⟨_, placedOk.symm, rfl, rfl⟩
        | some subsets => simp [instantiate, regionsEq, materialsEq] at placedOk
    | some regions =>
        have policy : unit.policy = .synchronizing := by
          simpa [regionsEq] using isGlobal
        cases materialsEq : unit.materials with
        | none => simp [instantiate, regionsEq, materialsEq] at placedOk
        | some subsets =>
            have itemsOk := placedItems_of_instantiate regionsEq materialsEq placedOk
            simp only [placedItems, policy, Except.ok.injEq] at itemsOk
            exact ⟨_, itemsOk.symm, rfl, rfl⟩

/-! ## All units -/

section Units

variable {units : List WorkUnit} {built : Blueprint}

/-- The items that name a position are those that the unit there has become. -/
theorem exists_placed
    (builtOk : blueprint grid settings placement units = .ok built)
    (unitAt : units[position]? = some unit) :
    instantiate grid settings placement position unit =
      .ok (built.graph.itemsNaming position) := by
  obtain ⟨items, itemsOk, rfl, _⟩ := blueprint_eq_ok_iff.mp builtOk
  obtain ⟨groups, groupsOk, _⟩ := bind_eq_ok_iff.mp itemsOk
  obtain ⟨placed, _, placedOk⟩ :=
    mapM_result_of_mem groupsOk (List.mk_mem_zipIdx_iff_getElem?.mpr unitAt)
  have same : (TaskGraph.ofItems items).itemsNaming position = placed :=
    filter_unit?_eq itemsOk unitAt placedOk
  rw [same]
  exact placedOk

/-- The items of a blueprint stand unit by unit. -/
theorem items_eq_flatMap
    (builtOk : blueprint grid settings placement units = .ok built) :
    built.graph.items = (List.range units.length).flatMap built.graph.itemsNaming := by
  have placed_eq : ∀ pair ∈ units.zipIdx,
      instantiate grid settings placement pair.2 pair.1 =
        .ok (built.graph.itemsNaming pair.2) := by
    intro pair member
    exact exists_placed builtOk (List.mk_mem_zipIdx_iff_getElem?.mp member)
  obtain ⟨items, itemsOk, builtEq, _⟩ := blueprint_eq_ok_iff.mp builtOk
  have sameItems : built.graph.items = items := by
    rw [builtEq]
    rfl
  rw [instantiateAll, mapM_eq_ok_map placed_eq] at itemsOk
  have flattened := Except.ok.inj itemsOk
  have places : units.zipIdx.map Prod.snd = List.range units.length := by
    rw [List.zipIdx_map_snd, List.range_eq_range']
  rw [sameItems, ← flattened, List.flatMap_def, ← places, List.map_map]
  rfl

/-- After a build the items stand unit by unit, and each unit has the items of
its policy, each once. -/
theorem blueprint_instantiates
    (builtOk : blueprint grid settings placement units = .ok built) :
    built.graph.items = (List.range units.length).flatMap built.graph.itemsNaming ∧
      ∀ (position : Nat) (unit : WorkUnit), units[position]? = some unit →
        unit.Instantiated placement (built.graph.itemsNaming position) := by
  refine ⟨items_eq_flatMap builtOk, fun position unit unitAt => ?_⟩
  exact instantiated_of_instantiate (exists_placed builtOk unitAt)

end Units

end Instances

/-! ## A region that nobody owns -/

namespace Row

/-- The other process owns the left cube, nobody the right one, and both cubes
are near. -/
def ownerless : Placement :=
  ⟨⟨0⟩, 2, [(⟨0⟩, ⟨1⟩)], .ofList [⟨0⟩, ⟨1⟩]⟩

/-- One unit of each kind, the first two with the same subset twice. -/
def everyKind : List WorkUnit := [
  (unit "spread" [⟨0⟩, ⟨1⟩]).withMaterials [.ofList [⟨0⟩], .ofList [⟨0⟩]],
  { (unit "share" [⟨0⟩, ⟨1⟩]).withMaterials [.ofList [⟨0⟩], .ofList [⟨0⟩]] with
    policy := .oncePerProcess },
  { unit "agree" [⟨0⟩, ⟨1⟩] with policy := .synchronizing }]

end Row

theorem blueprint_instantiates_row :
    blueprint Row.grid .standard Row.ownerless Row.everyKind =
        .ok (Row.builtUnder Row.ownerless Row.everyKind) ∧
      (Row.builtUnder Row.ownerless Row.everyKind).graph.items.length = 9 ∧
        ∀ (position : Nat) (unit : WorkUnit), Row.everyKind[position]? = some unit →
          unit.Instantiated Row.ownerless
            ((Row.builtUnder Row.ownerless Row.everyKind).graph.itemsNaming position) := by
  have builtOk :
      blueprint Row.grid .standard Row.ownerless Row.everyKind =
        .ok (Row.builtUnder Row.ownerless Row.everyKind) := rfl
  exact ⟨builtOk, rfl, (blueprint_instantiates builtOk).2⟩

end MeshTasks
