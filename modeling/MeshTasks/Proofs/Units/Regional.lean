import MeshTasks.Proofs.Items.Placed

/-!
# Units spread over regions

Most units work region by region: they bind regions and subsets of materials,
and touch values of their own regions only, apart from what they read around
them. Such a unit becomes one item for each near region and each subset.
-/

namespace MeshTasks

namespace WorkUnit

/-- Each access stands in the list that its mode calls for, and results are new
values. -/
structure Declared (unit : WorkUnit) : Prop where
  requires_mode : ∀ access ∈ unit.requires, access.mode = .requires
  modifies_mode : ∀ access ∈ unit.modifies, access.mode = .modifies
  computes_mode : ∀ access ∈ unit.computes, access.mode = .computes
  computes_new : ∀ access ∈ unit.computes, access.binding = .new

namespace Declared

variable {unit : WorkUnit}

theorem named (name : String) (policy : Policy) : (WorkUnit.named name policy).Declared where
  requires_mode := fun _ member => absurd member List.not_mem_nil
  modifies_mode := fun _ member => absurd member List.not_mem_nil
  computes_mode := fun _ member => absurd member List.not_mem_nil
  computes_new := fun _ member => absurd member List.not_mem_nil

theorem onRegions (declared : unit.Declared) (regions : RegionSet) :
    (unit.onRegions regions).Declared :=
  ⟨declared.requires_mode, declared.modifies_mode, declared.computes_mode, declared.computes_new⟩

theorem withMaterials (declared : unit.Declared) (subsets : List MaterialSubset) :
    (unit.withMaterials subsets).Declared :=
  ⟨declared.requires_mode, declared.modifies_mode, declared.computes_mode, declared.computes_new⟩

theorem requiring (declared : unit.Declared) (access : Access) :
    (unit.requiring access).Declared where
  requires_mode := by
    intro other member
    rcases List.mem_append.mp member with inside | atEnd
    · exact declared.requires_mode other inside
    · rw [List.mem_singleton.mp atEnd]
  modifies_mode := declared.modifies_mode
  computes_mode := declared.computes_mode
  computes_new := declared.computes_new

theorem modifying (declared : unit.Declared) (access : Access) :
    (unit.modifying access).Declared where
  requires_mode := declared.requires_mode
  modifies_mode := by
    intro other member
    rcases List.mem_append.mp member with inside | atEnd
    · exact declared.modifies_mode other inside
    · rw [List.mem_singleton.mp atEnd]
  computes_mode := declared.computes_mode
  computes_new := declared.computes_new

theorem computing (declared : unit.Declared) (access : Access) :
    (unit.computing access).Declared where
  requires_mode := declared.requires_mode
  modifies_mode := declared.modifies_mode
  computes_mode := by
    intro other member
    rcases List.mem_append.mp member with inside | atEnd
    · exact declared.computes_mode other inside
    · rw [List.mem_singleton.mp atEnd]
  computes_new := by
    intro other member
    rcases List.mem_append.mp member with inside | atEnd
    · exact declared.computes_new other inside
    · rw [List.mem_singleton.mp atEnd]

end Declared

/-- A unit with one item for each region and each subset of materials, all of
whose accesses are to values of its own regions and no reductions, and which
modifies without reaching out. -/
structure Regional (unit : WorkUnit) : Prop where
  per_region : unit.policy = .perRegion
  on_regions : unit.regions.isSome = true
  with_materials : unit.materials.isSome = true
  bound : ∀ access ∈ unit.consumed ++ unit.produced, access.domain = .regionBound
  not_reduction : ∀ access ∈ unit.consumed ++ unit.produced, access.label.isReduction = false
  modifies_bare : ∀ access ∈ unit.modifies, access.halo.isGhosted = false

/-- The subsets of materials of a unit hold materials, no two of them the same
one, and all accesses follow them. -/
structure SplitsMaterials (unit : WorkUnit) : Prop where
  inhabited : ∀ subset ∈ unit.materials.getD [], subset.isEmpty = false
  disjoint :
    (unit.materials.getD []).Pairwise fun left right => ∀ material ∈ left, material ∉ right
  implicit : ∀ access ∈ unit.consumed ++ unit.produced, access.materials = none

end WorkUnit

/-- What an access to the bound regions produces on an item that has regions. -/
theorem mem_producedKeys_of_bound
    {access : Access} {item : WorkItem} {key : ValueKey}
    (bound : access.domain = .regionBound)
    (notReduction : access.label.isReduction = false)
    (placed : item.regions ≠ []) :
    key ∈ producedKeys access item ↔
      key.label = access.label ∧
        (∃ region ∈ item.regions, access.admits region = true ∧ key.region = some region) ∧
          key.material ∈ materialKeys access item := by
  have notWide : ¬ (access.isDomainWide = true ∨ item.regions.isEmpty = true) := by
    unfold Access.isDomainWide
    rw [notReduction, bound, List.isEmpty_iff]
    exact fun either => either.elim nofun placed
  have regionKeysEq : regionKeys access item = (item.regions.filter access.admits).map some :=
    if_neg notWide
  rw [mem_producedKeys_iff, regionKeysEq]
  simp only [List.mem_map, List.mem_filter, and_assoc, eq_comm]

section

variable {grid : Grid} {settings : Settings} {placement : Placement}

/-- The items of a unit that is spread over regions. -/
def regionItems (placement : Placement) (position : Nat) (unit : WorkUnit) (regions : RegionSet)
    (subsets : List MaterialSubset) : List WorkItem :=
  (placement.nearby regions).toList.flatMap fun region =>
    subsets.map fun subset => itemOf placement position unit [region] (some subset) none

theorem instantiate_perRegion
    {position : Nat} {unit : WorkUnit} {regions : RegionSet} {subsets : List MaterialSubset}
    {placed : List WorkItem}
    (perRegion : unit.policy = .perRegion)
    (regionsEq : unit.regions = some regions)
    (materialsEq : unit.materials = some subsets) :
    instantiate grid settings placement position unit = .ok placed ↔
      (∀ region ∈ regions, (grid.region? region).isSome = true) ∧
        placed = regionItems placement position unit regions subsets := by
  have placedEq :
      placedItems settings placement position unit regions subsets =
        .ok (regionItems placement position unit regions subsets) := by
    rw [placedItems, perRegion]
    rfl
  constructor
  · intro placedOk
    have known := known_of_instantiate regionsEq materialsEq placedOk
    rw [instantiate_of_known regionsEq materialsEq known, placedEq] at placedOk
    cases placedOk
    exact ⟨known, rfl⟩
  · rintro ⟨known, rfl⟩
    rw [instantiate_of_known regionsEq materialsEq known, placedEq]
    rfl

theorem mem_regionItems
    {position : Nat} {unit : WorkUnit} {regions : RegionSet} {subsets : List MaterialSubset}
    {item : WorkItem} :
    item ∈ regionItems placement position unit regions subsets ↔
      ∃ region ∈ placement.nearby regions, ∃ subset ∈ subsets,
        item = itemOf placement position unit [region] (some subset) none := by
  unfold regionItems
  rw [List.mem_flatMap]
  refine exists_congr fun region => and_congr_right fun _ => ?_
  rw [List.mem_map]
  exact exists_congr fun subset => and_congr_right fun _ => eq_comm

/-- Where an item of a unit that is spread over regions stands. -/
theorem exists_slot
    {units : List WorkUnit} {items : List WorkItem} {item : WorkItem}
    (seated : Seated units)
    (regional : ∀ unit ∈ units, unit.Regional)
    (itemsOk : instantiateAll grid settings placement units = .ok items)
    (member : item ∈ items) :
    ∃ unit region subset, item.BelongsTo units unit ∧ subset ∈ unit.materials.getD [] ∧
      item = itemOf placement item.order unit [region] (some subset) none := by
  obtain ⟨position, unit, placed, unitAt, placedOk, inPlaced⟩ :=
    exists_unit_of_mem_items itemsOk member
  have unitRegional := regional unit (List.mem_of_getElem? unitAt)
  obtain ⟨regions, regionsEq⟩ := Option.isSome_iff_exists.mp unitRegional.on_regions
  obtain ⟨subsets, materialsEq⟩ := Option.isSome_iff_exists.mp unitRegional.with_materials
  obtain ⟨_, rfl⟩ :=
    (instantiate_perRegion unitRegional.per_region regionsEq materialsEq).mp placedOk
  obtain ⟨region, _, subset, subsetMember, rfl⟩ := mem_regionItems.mp inPlaced
  have orderEq : unit.seat.getD position = position := by
    rw [seated position unit unitAt, Option.getD_some]
  refine ⟨unit, region, subset, ⟨congrArg some orderEq.symm, ?_⟩, ?_, ?_⟩
  · show units[unit.seat.getD position]? = some unit
    rw [orderEq]
    exact unitAt
  · rw [materialsEq, Option.getD_some]
    exact subsetMember
  · show _ = itemOf placement (unit.seat.getD position) unit [region] (some subset) none
    rw [orderEq]

end

end MeshTasks
