import MeshTasks.Proofs.Distribution.Neighborhoods
import MeshTasks.Proofs.FirstExecution

/-!
# Output groups

Every process builds its own part of the graph. The processes agree on the
owners of the regions, but each has a neighborhood of its own and counts the
processes for itself. The groups that write output together nevertheless come
out the same: the group of an owner is led by the last multiple of the group
size that does not pass it, and its items are those of the regions whose owners
have that leader. A build holds all of them or none, and the build of the leader
holds them.
-/

namespace MeshTasks

private theorem foldl_max_le_iff
    {values : List Nat} {start bound : Nat} :
    values.foldl max start ≤ bound ↔ start ≤ bound ∧ ∀ value ∈ values, value ≤ bound := by
  induction values generalizing start with
  | nil => simp
  | cons head tail inductionHypothesis =>
      rw [List.foldl_cons, inductionHypothesis, Nat.max_le, List.forall_mem_cons, and_assoc]

namespace Placement

variable {grid : Grid} {process : ProcessId} {owners : OwnerTable} {placement : Placement}

private theorem countThrough_eq_ok_iff
    {count : Nat} :
    countThrough process = .ok count ↔
      process.number.toNat + 1 < 4294967296 ∧ count = process.number.toNat + 1 := by
  unfold countThrough
  split
  · rename_i fits
    rw [Except.ok.injEq]
    exact ⟨fun same => ⟨fits, same.symm⟩, fun known => known.2.symm⟩
  · rename_i tooLarge
    exact ⟨nofun, fun known => absurd known.1 tooLarge⟩

/-- The processes of an owner table and the one that builds from it. -/
def participants (owners : OwnerTable) (process : ProcessId) : List ProcessId :=
  owners.map Prod.snd ++ [process]

private theorem participant_lt_of_owners
    {bound : Nat}
    (ownersBound : ∀ entry ∈ owners, entry.2.number.toNat < bound)
    (processBound : process.number.toNat < bound) :
    ∀ participant ∈ participants owners process, participant.number.toNat < bound := by
  intro participant member
  rcases List.mem_append.mp member with inTable | isLocal
  · obtain ⟨entry, entryMember, rfl⟩ := List.mem_map.mp inTable
    exact ownersBound entry entryMember
  · rw [List.mem_singleton.mp isLocal]
    exact processBound

/-- There are just as many processes as the numbers of the participants call
for. -/
private theorem processCount_le_iff
    (placed : ofOwners process owners = .ok placement)
    {bound : Nat} :
    placement.processCount ≤ bound ↔
      1 ≤ bound ∧ ∀ participant ∈ participants owners process,
        participant.number.toNat < bound := by
  obtain ⟨counts, countsOk, assembled⟩ := bind_eq_ok_iff.mp placed
  cases assembled
  rw [foldl_max_le_iff]
  apply and_congr_right
  intro _
  constructor
  · intro bounded participant member
    obtain ⟨count, inCounts, countOk⟩ := mapM_result_of_mem countsOk member
    obtain ⟨_, rfl⟩ := countThrough_eq_ok_iff.mp countOk
    exact bounded _ inCounts
  · intro bounded count member
    obtain ⟨participant, inOwners, countOk⟩ := exists_of_mem_mapM countsOk member
    obtain ⟨_, rfl⟩ := countThrough_eq_ok_iff.mp countOk
    exact bounded participant inOwners

/-- An owner table of small numbers always gives a placement. -/
theorem exists_ofOwners
    (small : ∀ participant ∈ participants owners process,
      participant.number.toNat < 2147483648) :
    ∃ placement, ofOwners process owners = .ok placement := by
  have countsOk :
      (participants owners process).mapM countThrough =
        .ok ((participants owners process).map fun owner => owner.number.toNat + 1) := by
    apply mapM_eq_ok_map
    intro participant member
    have bound := small participant member
    exact countThrough_eq_ok_iff.mpr ⟨by omega, rfl⟩
  exact ⟨_, bind_eq_ok_iff.mpr ⟨_, countsOk, rfl⟩⟩

/-- The placement that a process makes of an owner table. Its neighborhood is
every region of the table, or what lies within a halo of the regions that the
process owns. -/
inductive IsMadeOf (grid : Grid) (process : ProcessId) (owners : OwnerTable)
    (placement : Placement) : Prop
  | table (placed : ofOwners process owners = .ok placement)
  | halo {width : Coord} (placed : withinHalo grid process owners width = .ok placement)

/-- Whatever its neighborhood, such a placement counts the processes in the same
way. -/
private theorem IsMadeOf.exists_base
    (made : placement.IsMadeOf grid process owners) :
    ∃ base neighborhood, ofOwners process owners = .ok base ∧
      placement = { base with neighborhood } := by
  cases made with
  | table placed => exact ⟨placement, placement.neighborhood, placed, rfl⟩
  | halo placed =>
      obtain ⟨base, baseOk, rest⟩ := bind_eq_ok_iff.mp placed
      obtain ⟨reached, _, assembled⟩ := bind_eq_ok_iff.mp rest
      cases assembled
      exact ⟨base, _, baseOk, rfl⟩

private theorem IsMadeOf.spec
    (made : placement.IsMadeOf grid process owners) :
    placement.localProcess = process ∧ placement.owners = owners ∧
      ∀ bound, placement.processCount ≤ bound ↔
        1 ≤ bound ∧ ∀ participant ∈ participants owners process,
          participant.number.toNat < bound := by
  obtain ⟨base, neighborhood, baseOk, rfl⟩ := made.exists_base
  obtain ⟨localEq, ownersEq, _⟩ := ofOwners_spec baseOk
  exact ⟨localEq, ownersEq, fun bound => processCount_le_iff baseOk⟩

private theorem IsMadeOf.participant_lt
    (made : placement.IsMadeOf grid process owners)
    {participant : ProcessId}
    (member : participant ∈ participants owners process) :
    participant.number.toNat < placement.processCount :=
  ((made.spec.2.2 placement.processCount).mp (Nat.le_refl _)).2 participant member

private theorem IsMadeOf.owner_lt
    (made : placement.IsMadeOf grid process owners)
    {region : RegionId} {owner : ProcessId}
    (owned : owners.lookup region = some owner) :
    owner.number.toNat < placement.processCount :=
  made.participant_lt
    (List.mem_append_left _ (List.mem_map_of_mem (f := Prod.snd) (mem_table_of_lookup owned)))

end Placement

/-! ## Leaders -/

/-- The lowest process of the output group that a process belongs to. -/
def ProcessId.leader (size : Nat) (process : ProcessId) : ProcessId :=
  ⟨.ofNat (size * (process.number.toNat / size))⟩

@[simp]
theorem ProcessId.leader_number (size : Nat) (process : ProcessId) :
    (process.leader size).number.toNat = size * (process.number.toNat / size) := by
  have upTo := Nat.mul_div_le process.number.toNat size
  have bound := process.number.toNat_lt
  exact UInt32.toNat_ofNat_of_lt' (Nat.lt_of_le_of_lt upTo bound)

theorem ProcessId.eq_iff_number {left right : ProcessId} :
    left = right ↔ left.number.toNat = right.number.toNat :=
  ⟨fun same => same ▸ rfl, fun same => Ranked.rank_injective (α := ProcessId) same⟩

private theorem groupSize_pos (settings : Settings) : 0 < groupSize settings :=
  Nat.le_max_left 1 _

/-- The regions of a set whose owners have a leader in common. -/
def OwnerTable.regionsLed (owners : OwnerTable) (size : Nat) (regions : RegionSet)
    (leader : ProcessId) : List RegionId :=
  regions.toList.filter fun region =>
    match owners.lookup region with
    | none => false
    | some owner => decide (leader = owner.leader size)

private theorem OwnerTable.mem_regionsLed
    {owners : OwnerTable} {size : Nat} {regions : RegionSet} {leader : ProcessId}
    {region : RegionId} :
    region ∈ owners.regionsLed size regions leader ↔
      region ∈ regions ∧ ∃ owner, owners.lookup region = some owner ∧
        leader = owner.leader size := by
  unfold regionsLed
  rw [List.mem_filter]
  cases owners.lookup region with
  | none => simp
  | some owner => simp [OrderedSet.mem_iff]

section Groups

variable {grid : Grid} {settings : Settings} {process : ProcessId} {owners : OwnerTable}
  {placement : Placement}

/-- A counted process is in the group of a leader exactly if that is its
leader. -/
private theorem isInGroup_eq
    {leader owner : ProcessId}
    (leads : leader.number.toNat % groupSize settings = 0)
    (counted : owner.number.toNat < placement.processCount) :
    isInGroup settings placement leader owner =
      decide (leader = owner.leader (groupSize settings)) := by
  have sizePositive := groupSize_pos settings
  obtain ⟨block, blockEq⟩ := Nat.dvd_of_mod_eq_zero leads
  unfold isInGroup
  rw [← Bool.decide_and, decide_eq_decide, ProcessId.eq_iff_number, ProcessId.leader_number,
    blockEq, Nat.lt_min, Nat.mul_right_inj (Nat.ne_of_gt sizePositive), eq_comm,
    Nat.div_eq_iff sizePositive, Nat.mul_comm block]
  omega

private theorem regionsOwned_isInGroup
    (made : placement.IsMadeOf grid process owners)
    {leader : ProcessId}
    (leads : leader.number.toNat % groupSize settings = 0)
    (regions : RegionSet) :
    regionsOwned placement regions (isInGroup settings placement leader) =
      owners.regionsLed (groupSize settings) regions leader := by
  apply List.filter_congr
  intro region _
  unfold Placement.owner?
  rw [made.spec.2.1]
  cases owned : owners.lookup region with
  | none => rfl
  | some owner =>
      exact isInGroup_eq leads (made.owner_lt owned)

/-- The last group of small processes ends at a number of thirty-two bits. -/
private theorem checkOutputGroups_eq_ok
    (sizeBound : groupSize settings < 2147483648)
    (countBound : placement.processCount ≤ 2147483648) :
    checkOutputGroups settings placement = .ok () := by
  have lastLeader :=
    Nat.div_mul_le_self (placement.processCount - 1) (groupSize settings)
  apply if_neg
  omega

/-- The leader of a group leads it in every build whose neighborhood it is
in. -/
private theorem leader_mem_outputLeaders_iff
    {owner : ProcessId}
    (counted : owner.number.toNat < placement.processCount) :
    owner.leader (groupSize settings) ∈ outputLeaders settings placement ↔
      owner.leader (groupSize settings) ∈ placement.neighborhoodProcesses := by
  have upTo := Nat.mul_div_le owner.number.toNat (groupSize settings)
  unfold outputLeaders
  rw [List.mem_filter, Bool.and_eq_true, decide_eq_true_eq, decide_eq_true_eq,
    ProcessId.leader_number, OrderedSet.mem_iff]
  refine and_iff_left ⟨Nat.mul_mod_right _ _, ?_⟩
  omega

/-! ## What a build holds -/

/-- The items of an output unit for the group of a leader, one for each subset
of materials. They do not depend on the process that builds. -/
def WorkUnit.outputItems (unit : WorkUnit) (position : Nat) (bound : List RegionId)
    (subsets : List MaterialSubset) (leader : ProcessId) : List WorkItem :=
  subsets.map fun subset => {
    origin := .unit position
    name := unit.name
    regions := bound
    materials := some subset
    process := leader
    order := unit.seat.getD position
    phase := unit.phase }

private theorem WorkUnit.process_of_mem_outputItems
    {unit : WorkUnit} {position : Nat} {bound : List RegionId} {subsets : List MaterialSubset}
    {leader : ProcessId} {item : WorkItem}
    (member : item ∈ unit.outputItems position bound subsets leader) :
    item.process = leader := by
  obtain ⟨subset, _, rfl⟩ := List.mem_map.mp member
  rfl

private theorem WorkUnit.length_outputItems
    {unit : WorkUnit} {position : Nat} {bound : List RegionId} {subsets : List MaterialSubset}
    {leader : ProcessId} :
    (unit.outputItems position bound subsets leader).length = subsets.length :=
  List.length_map _

/-- The items of an output unit that its leader writes, none if the group owns
nothing. -/
def OwnerTable.itemsLed (owners : OwnerTable) (size : Nat) (position : Nat) (unit : WorkUnit)
    (regions : RegionSet) (subsets : List MaterialSubset) (leader : ProcessId) : List WorkItem :=
  let led := owners.regionsLed size regions leader
  if led.isEmpty then [] else unit.outputItems position led subsets leader

private theorem OwnerTable.regions_of_mem_itemsLed
    {owners : OwnerTable} {size position : Nat} {unit : WorkUnit} {regions : RegionSet}
    {subsets : List MaterialSubset} {leader : ProcessId} {item : WorkItem}
    (member : item ∈ owners.itemsLed size position unit regions subsets leader) :
    item.regions = owners.regionsLed size regions leader := by
  unfold itemsLed at member
  dsimp only at member
  split at member
  · cases member
  · obtain ⟨subset, _, rfl⟩ := List.mem_map.mp member
    rfl

/-- The items that stand on a region. -/
def itemsOn (region : RegionId) (items : List WorkItem) : List WorkItem :=
  items.filter fun item => decide (region ∈ item.regions)

variable {position : Nat} {unit : WorkUnit} {regions : RegionSet} {subsets : List MaterialSubset}

/-- The items of an output unit, group by group. -/
private theorem placedItems_outputOnce
    (made : placement.IsMadeOf grid process owners)
    (policy : unit.policy = .outputOnce)
    (sizeBound : groupSize settings < 2147483648)
    (countBound : placement.processCount ≤ 2147483648) :
    placedItems settings placement position unit regions subsets =
      .ok ((outputLeaders settings placement).flatMap
        (owners.itemsLed (groupSize settings) position unit regions subsets)) := by
  unfold placedItems
  rw [policy]
  dsimp only
  rw [checkOutputGroups_eq_ok sizeBound countBound]
  refine congrArg Except.ok (List.flatMap_congr fun leader member => ?_)
  have leads := (Bool.and_eq_true _ _ ▸ (List.mem_filter.mp member).2).1
  rw [regionsOwned_isInGroup made (of_decide_eq_true leads)]
  rfl

/-- On a region the build holds the items of one group, if the leader is in its
neighborhood. -/
theorem itemsOn_outputOnce
    (made : placement.IsMadeOf grid process owners)
    {region : RegionId} {owner : ProcessId}
    (member : region ∈ regions)
    (owned : owners.lookup region = some owner) :
    let leader := owner.leader (groupSize settings)
    let bound := owners.regionsLed (groupSize settings) regions leader
    itemsOn region ((outputLeaders settings placement).flatMap
        (owners.itemsLed (groupSize settings) position unit regions subsets)) =
      if leader ∈ placement.neighborhoodProcesses then
        unit.outputItems position bound subsets leader
      else
        [] := by
  intro leader bound
  have distinct : (outputLeaders settings placement).Nodup :=
    (placement.neighborhoodProcesses.ascending.imp fun less same => by
      rw [same] at less
      exact Nat.lt_irrefl _ less).filter _
  have selected :
      itemsOn region ((outputLeaders settings placement).flatMap
          (owners.itemsLed (groupSize settings) position unit regions subsets)) =
        ((outputLeaders settings placement).filter fun other => decide (other = leader)).flatMap
          (owners.itemsLed (groupSize settings) position unit regions subsets) := by
    refine filter_flatMap_of_iff fun other _ item itemMember => ?_
    rw [OwnerTable.regions_of_mem_itemsLed itemMember, decide_eq_decide,
      OwnerTable.mem_regionsLed]
    constructor
    · rintro ⟨_, found, foundEq, otherEq⟩
      rw [owned] at foundEq
      cases foundEq
      exact otherEq
    · intro isLeader
      exact ⟨member, owner, owned, isLeader⟩
  have allLed :
      owners.itemsLed (groupSize settings) position unit regions subsets leader =
        unit.outputItems position bound subsets leader := by
    have onBound : region ∈ bound := OwnerTable.mem_regionsLed.mpr ⟨member, owner, owned, rfl⟩
    have notEmpty := List.isEmpty_eq_false_iff.mpr (List.ne_nil_of_mem onBound)
    exact if_neg (Bool.eq_false_iff.mp notEmpty)
  rw [selected, flatMap_filter_eq_of_nodup distinct, allLed]
  simp only [leader, leader_mem_outputLeaders_iff (made.owner_lt owned)]
/-- Of what is held on a region, the leader alone holds items of its own. -/
theorem exists_own_item_iff
    (made : placement.IsMadeOf grid process owners)
    {leader : ProcessId} {led : List RegionId} {place : Nat}
    (bound : place < subsets.length) :
    (∃ item,
      (if leader ∈ placement.neighborhoodProcesses then
        unit.outputItems position led subsets leader
      else
        [])[place]? = some item ∧ item.process = process) ↔ process = leader := by
  constructor
  · rintro ⟨item, itemAt, ofProcess⟩
    split at itemAt
    · rw [← ofProcess, WorkUnit.process_of_mem_outputItems (List.mem_of_getElem? itemAt)]
    · cases itemAt
  · rintro rfl
    have near : process ∈ placement.neighborhoodProcesses := by
      rw [← made.spec.1]
      exact OrderedSet.mem_ofList.mpr (List.mem_append_right _ List.mem_cons_self)
    have inGroup : place < (unit.outputItems position led subsets process).length :=
      WorkUnit.length_outputItems ▸ bound
    rw [if_pos near, List.getElem?_eq_getElem inGroup]
    exact ⟨_, rfl, WorkUnit.process_of_mem_outputItems (List.getElem_mem inGroup)⟩

private theorem instantiate_outputOnce
    (made : placement.IsMadeOf grid process owners)
    (policy : unit.policy = .outputOnce)
    (regionsEq : unit.regions = some regions)
    (materialsEq : unit.materials = some subsets)
    (known : ∀ region ∈ regions, (grid.region? region).isSome = true)
    (sizeBound : groupSize settings < 2147483648)
    (countBound : placement.processCount ≤ 2147483648) :
    instantiate grid settings placement position unit =
      .ok ((outputLeaders settings placement).flatMap
        (owners.itemsLed (groupSize settings) position unit regions subsets)) := by
  rw [instantiate_of_known regionsEq materialsEq known,
    placedItems_outputOnce made policy sizeBound countBound]
  rfl

end Groups

/-- The output for a region is written once. Whatever neighborhood a process has
of an owner table, its build holds for the region either nothing or the items of
the leader of the region's owner, one for each subset of materials and the same
in every build. The only process whose build holds such an item of its own is
that leader. -/
theorem output_written_once
    {grid : Grid} {settings : Settings} {owners : OwnerTable} {units : List WorkUnit}
    {position : Nat} {unit : WorkUnit} {regions : RegionSet} {subsets : List MaterialSubset}
    {region : RegionId} {owner : ProcessId}
    (unitAt : units[position]? = some unit)
    (policy : unit.policy = .outputOnce)
    (regionsEq : unit.regions = some regions)
    (materialsEq : unit.materials = some subsets)
    (known : ∀ region ∈ regions, (grid.region? region).isSome = true)
    (sizePositive : 1 ≤ settings.outputGroupSize.toNat)
    (sizeBound : settings.outputGroupSize.toNat < 2147483648)
    (ownersBound : ∀ entry ∈ owners, entry.2.number.toNat < 2147483648)
    (member : region ∈ regions)
    (owned : owners.lookup region = some owner) :
    let size := settings.outputGroupSize.toNat
    let leader := owner.leader size
    let group := unit.outputItems position (owners.regionsLed size regions leader) subsets leader
    leader.number.toNat = size * (owner.number.toNat / size) ∧
      (∃ placement, Placement.ofOwners leader owners = .ok placement) ∧
      ∀ process placement, process.number.toNat < 2147483648 →
        placement.IsMadeOf grid process owners →
          ∃ items, instantiate grid settings placement position unit = .ok items ∧
            (units = [unit] → ∃ built, blueprint grid settings placement units = .ok built) ∧
            (∀ built, blueprint grid settings placement units = .ok built →
              (built.graph.items.filter fun item => decide (item.unit? = some position)) =
                items) ∧
            (itemsOn region items = [] ∨ itemsOn region items = group) ∧
            ∀ place < subsets.length,
              (∃ item, (itemsOn region items)[place]? = some item ∧ item.process = process) ↔
                process.number.toNat = size * (owner.number.toNat / size) := by
  intro size leader group
  have sizeEq : groupSize settings = size := Nat.max_eq_right sizePositive
  have leaderNumber : leader.number.toNat = size * (owner.number.toNat / size) :=
    ProcessId.leader_number size owner
  have leaderSmall : leader.number.toNat < 2147483648 := by
    rw [leaderNumber]
    exact Nat.lt_of_le_of_lt (Nat.mul_div_le _ _) (ownersBound _ (mem_table_of_lookup owned))
  have leaderOk :=
    Placement.exists_ofOwners (Placement.participant_lt_of_owners ownersBound leaderSmall)
  refine ⟨leaderNumber, leaderOk, fun process placement small made => ?_⟩
  have countBound : placement.processCount ≤ 2147483648 :=
    (made.spec.2.2 _).mpr ⟨by decide, Placement.participant_lt_of_owners ownersBound small⟩
  let items :=
    (outputLeaders settings placement).flatMap
      (owners.itemsLed (groupSize settings) position unit regions subsets)
  have itemsOk : instantiate grid settings placement position unit = .ok items :=
    instantiate_outputOnce made policy regionsEq materialsEq known
      (lt_of_eq_of_lt sizeEq sizeBound) countBound
  have onRegion :
      itemsOn region items = if leader ∈ placement.neighborhoodProcesses then group else [] := by
    have selected :
        itemsOn region items = if owner.leader (groupSize settings) ∈ _ then _ else [] :=
      itemsOn_outputOnce made member owned
    rwa [sizeEq] at selected
  refine ⟨items, itemsOk, ?_, ?_, ?_, ?_⟩
  · rintro rfl
    obtain ⟨bound, _⟩ := List.getElem?_eq_some_iff.mp unitAt
    have atStart := Nat.lt_one_iff.mp bound
    subst atStart
    exact exists_blueprint_singleton itemsOk
  · intro built builtOk
    obtain ⟨items, allOk, rfl, _⟩ := blueprint_eq_ok_iff.mp builtOk
    exact filter_unit?_eq allOk unitAt itemsOk
  · rw [onRegion]
    split
    · exact Or.inr rfl
    · exact Or.inl rfl
  · intro place bound
    rw [← leaderNumber, ← ProcessId.eq_iff_number, onRegion]
    exact exists_own_item_iff made bound

/-! ## A row whose leaders own nothing -/

namespace Row

/-- Two processes own a cube each, and neither leads its pair. -/
def scattered : OwnerTable := [(⟨0⟩, ⟨1⟩), (⟨1⟩, ⟨3⟩)]

def pairwise : Settings := { Settings.standard with outputGroupSize := 2 }

/-- Writes two materials of both cubes. -/
def plot : WorkUnit :=
  ((WorkUnit.named "plot" .outputOnce).onRegions (.ofList [⟨0⟩, ⟨1⟩])).withMaterials
    [.ofList [⟨0⟩], .ofList [⟨1⟩]]

/-- What the leader of the right cube's owner sees. -/
def besideRight : Placement := ⟨⟨2⟩, 4, scattered, .ofList [⟨0⟩, ⟨1⟩]⟩

end Row

theorem output_written_once_row :
    Placement.ofOwners ⟨2⟩ Row.scattered = .ok Row.besideRight ∧
      ∃ items, instantiate Row.grid Row.pairwise Row.besideRight 0 Row.plot = .ok items ∧
        (itemsOn ⟨1⟩ items).map WorkItem.process = [⟨2⟩, ⟨2⟩] ∧
        ∃ item, (itemsOn ⟨1⟩ items)[1]? = some item ∧ item.process = ⟨2⟩ := by
  have placed : Placement.ofOwners ⟨2⟩ Row.scattered = .ok Row.besideRight := rfl
  have plotAt : [Row.plot][0]? = some Row.plot := rfl
  have known :
      ∀ region ∈ (.ofList [⟨0⟩, ⟨1⟩] : RegionSet), (Row.grid.region? region).isSome = true := by
    decide
  have sizePositive : 1 ≤ Row.pairwise.outputGroupSize.toNat := by decide
  have small : ∀ entry ∈ Row.scattered, entry.2.number.toNat < 2147483648 := by decide
  have owned : Row.scattered.lookup ⟨1⟩ = some ⟨3⟩ := rfl
  obtain ⟨_, _, written⟩ :=
    output_written_once plotAt rfl rfl rfl known sizePositive (by decide) small (by decide) owned
  obtain ⟨items, itemsOk, _, _, _, writes⟩ :=
    written ⟨2⟩ Row.besideRight (by decide) (.table placed)
  refine ⟨placed, items, itemsOk, ?_, (writes 1 (by decide)).mpr rfl⟩
  cases itemsOk
  rfl

end MeshTasks
