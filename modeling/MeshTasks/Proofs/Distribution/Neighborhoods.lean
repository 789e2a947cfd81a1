import MeshTasks.Proofs.Mesh.Reach

/-!
# Neighborhoods

The serial placement gives every region of a grid to the first process and has
them all in its neighborhood. The halo placement of a process keeps the owners
it was given, and its neighborhood holds everything within reach of the regions
that the process owns.
-/

namespace MeshTasks

namespace OwnerTable

theorem lookup_put (table : OwnerTable) (region other : RegionId) (process : ProcessId) :
    (table.put region process).lookup other =
      if other = region then some process else table.lookup other := by
  induction table with
  | nil =>
      unfold put
      by_cases same : other = region
      · rw [if_pos same, List.lookup_cons, same, beq_self_eq_true]
      · rw [if_neg same, List.lookup_cons, beq_false_of_ne same]
  | cons head tail inductionHypothesis =>
      obtain ⟨held, owner⟩ := head
      unfold put
      by_cases isHeld : held = region
      · rw [if_pos isHeld, List.lookup_cons, List.lookup_cons, isHeld]
        by_cases same : other = region
        · rw [if_pos same, same, beq_self_eq_true]
        · rw [if_neg same, beq_false_of_ne same]
      · rw [if_neg isHeld, List.lookup_cons, List.lookup_cons, inductionHypothesis]
        by_cases atHeld : other = held
        · rw [atHeld, beq_self_eq_true]
          exact (if_neg isHeld).symm
        · rw [beq_false_of_ne atHeld]

/-- A table of pairs that all name one process gives it every region they
name. -/
theorem lookup_ofPairs_of_mem
    {regions : List RegionId} {process : ProcessId} {region : RegionId}
    (member : region ∈ regions) :
    (ofPairs (regions.map fun id => (id, process))).lookup region = some process := by
  have filled :
      ∀ (rest : List RegionId) (table : OwnerTable),
        region ∈ rest ∨ table.lookup region = some process →
          ((rest.map fun id => (id, process)).foldl (fun table pair => table.put pair.1 pair.2)
            table).lookup region = some process := by
    intro rest
    induction rest with
    | nil =>
        intro table known
        exact known.resolve_left List.not_mem_nil
    | cons head tail inductionHypothesis =>
        intro table known
        apply inductionHypothesis
        by_cases atHead : region = head
        · right
          rw [lookup_put, if_pos atHead]
        · rw [lookup_put, if_neg atHead]
          exact known.imp_left fun inRest => (List.mem_cons.mp inRest).resolve_left atHead
  exact filled regions [] (Or.inl member)

end OwnerTable

theorem mem_table_of_lookup
    {table : OwnerTable} {region : RegionId} {owner : ProcessId}
    (owned : table.lookup region = some owner) :
    (region, owner) ∈ table := by
  obtain ⟨front, back, rfl, _⟩ := List.lookup_eq_some_iff.mp owned
  exact List.mem_append_right front List.mem_cons_self

namespace Placement

variable {grid : Grid}

/-- What a placement made of an owner table is. -/
theorem ofOwners_spec
    {process : ProcessId} {owners : OwnerTable} {placement : Placement}
    (placed : ofOwners process owners = .ok placement) :
    placement.localProcess = process ∧ placement.owners = owners ∧
      placement.neighborhood = .ofList (owners.map Prod.fst) := by
  obtain ⟨counts, _, assembled⟩ := bind_eq_ok_iff.mp placed
  cases assembled
  exact ⟨rfl, rfl, rfl⟩

/-- The serial placement owns and sees every region of the grid. -/
structure IsSerial (placement : Placement) (grid : Grid) : Prop where
  localProcess_eq : placement.localProcess = ⟨0⟩
  owner?_eq : ∀ region, (grid.region? region).isSome = true →
    placement.owner? region = some ⟨0⟩
  isNear_eq : ∀ region, (grid.region? region).isSome = true → placement.isNear region = true

private theorem mem_ids_of_region?
    {region : RegionId}
    (present : (grid.region? region).isSome = true) :
    region ∈ grid.regions.map Region.id := by
  obtain ⟨found, foundEq⟩ := Option.isSome_iff_exists.mp present
  obtain ⟨member, idEq⟩ := Grid.region?_eq_some_iff.mp foundEq
  exact List.mem_map.mpr ⟨found, member, idEq⟩

theorem isSerial_serial
    {placement : Placement}
    (placed : serial grid = .ok placement) :
    placement.IsSerial grid := by
  obtain ⟨localEq, ownersEq, neighborhoodEq⟩ := ofOwners_spec placed
  have owned :
      ∀ region, (grid.region? region).isSome = true →
        placement.owners.lookup region = some ⟨0⟩ := by
    intro region present
    have pairsEq :
        (grid.regions.map fun held => (held.id, (⟨0⟩ : ProcessId))) =
          (grid.regions.map Region.id).map fun id => (id, ⟨0⟩) := by
      rw [List.map_map]
      rfl
    rw [ownersEq, pairsEq]
    exact OwnerTable.lookup_ofPairs_of_mem (mem_ids_of_region? present)
  refine ⟨localEq, owned, fun region present => ?_⟩
  have listed := List.mem_map_of_mem (f := Prod.fst) (mem_table_of_lookup (owned region present))
  rw [ownersEq] at listed
  unfold isNear
  rw [neighborhoodEq]
  exact decide_eq_true (OrderedSet.mem_ofList.mpr listed)

/-- What the halo placement of a process promises about a grid. -/
structure CoversHalo (placement : Placement) (grid : Grid) (process : ProcessId)
    (owners : OwnerTable) (width : Coord) : Prop where
  localProcess_eq : placement.localProcess = process
  owners_eq : placement.owners = owners
  near : ∀ first second, (grid.region? first).isSome = true →
    owners.lookup first = some process → grid.Reaches width first second →
      placement.isNear second = true

/-- Whatever the reach of a local region holds is near. -/
theorem exists_reach_of_withinHalo
    {process : ProcessId} {owners : OwnerTable} {width : Coord} {placement : Placement}
    {region : Region}
    (placed : withinHalo grid process owners width = .ok placement)
    (regionAt : grid.region? region.id = some region)
    (owned : owners.lookup region.id = some process) :
    ∃ reached, reachOf grid width region = .ok reached ∧
      ∀ id ∈ reached, placement.isNear id = true := by
  obtain ⟨base, _, rest⟩ := bind_eq_ok_iff.mp placed
  obtain ⟨all, allOk, assembled⟩ := bind_eq_ok_iff.mp rest
  cases assembled
  have inGrid := (Grid.region?_eq_some_iff.mp regionAt).1
  obtain ⟨reached, reachedMember, reachedOk⟩ :=
    mapM_result_of_mem allOk (List.mem_filter.mpr ⟨inGrid, decide_eq_true owned⟩)
  refine ⟨reached, reachedOk, fun id inReached => decide_eq_true ?_⟩
  exact OrderedSet.mem_ofList.mpr (List.mem_flatten.mpr ⟨reached, reachedMember, inReached⟩)

theorem coversHalo_withinHalo
    {process : ProcessId} {owners : OwnerTable} {width : Coord} {placement : Placement}
    (wide : 0 ≤ width.val)
    (placed : withinHalo grid process owners width = .ok placement) :
    placement.CoversHalo grid process owners width := by
  have placedParts := placed
  obtain ⟨base, baseOk, rest⟩ := bind_eq_ok_iff.mp placedParts
  obtain ⟨_, _, assembled⟩ := bind_eq_ok_iff.mp rest
  obtain ⟨localEq, ownersEq, _⟩ := ofOwners_spec baseOk
  cases assembled
  refine ⟨localEq, ownersEq, fun first second present owned reaches => ?_⟩
  obtain ⟨region, regionEq⟩ := Option.isSome_iff_exists.mp present
  obtain rfl := (Grid.region?_eq_some_iff.mp regionEq).2
  obtain ⟨reached, reachedOk, near⟩ := exists_reach_of_withinHalo placed regionEq owned
  apply near
  rcases reaches with rfl | ⟨held, other, level, heldEq, otherEq, levelAt, inLevel, otherIn,
    adjoins⟩
  · exact mem_reachOf_self reachedOk
  · rw [regionEq] at heldEq
    cases heldEq
    rw [← (Grid.region?_eq_some_iff.mp otherEq).2]
    exact mem_reachOf reachedOk wide levelAt inLevel otherIn adjoins

end Placement

end MeshTasks
