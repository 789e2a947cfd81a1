import MeshTasks.Proofs.Producers.Recording
import MeshTasks.Proofs.Selection

/-!
# Where items come from

Every item of a blueprint belongs to the unit at the position written on it, and
items stand in the order of these positions. What relates the items of one unit
to each other, and relates items of different units whatever they are, therefore
relates every item to all later ones.
-/

namespace MeshTasks

variable {grid : Grid} {settings : Settings} {placement : Placement}

/-- The positions of sorted units are written on them. -/
def Seated (units : List WorkUnit) : Prop :=
  ∀ (position : Nat) (unit : WorkUnit),
    units[position]? = some unit → unit.seat = some position

/-- An item is one of the unit at the position that is its order. -/
structure WorkItem.BelongsTo (units : List WorkUnit) (item : WorkItem) (unit : WorkUnit) :
    Prop where
  unit?_eq : item.unit? = some item.order
  unit_at : units[item.order]? = some unit

theorem WorkItem.BelongsTo.unit_of
    {units : List WorkUnit} {item : WorkItem} {unit : WorkUnit}
    (belongs : item.BelongsTo units unit) :
    item.unit?.bind (units[·]?) = some unit := by
  rw [belongs.unit?_eq]
  exact belongs.unit_at

theorem WorkItem.isSend_eq_false_of_unit?
    {item : WorkItem} {position : Nat}
    (fromUnit : item.unit? = some position) :
    item.isSend = false := by
  unfold unit? at fromUnit
  unfold isSend
  cases origin : item.origin with
  | unit position => rfl
  | priorGeneration =>
      rw [origin] at fromUnit
      cases fromUnit

/-- Whatever the policy, the items of a unit stand on regions that the unit is
bound to. -/
theorem mem_placedItems
    {position : Nat} {unit : WorkUnit} {regions : RegionSet} {subsets : List MaterialSubset}
    {placed : List WorkItem} {item : WorkItem}
    (placedOk : placedItems settings placement position unit regions subsets = .ok placed)
    (member : item ∈ placed) :
    ∃ bound materials process,
      item = itemOf placement position unit bound materials process ∧ bound ⊆ regions.toList := by
  unfold placedItems at placedOk
  cases policy : unit.policy with
  | perRegion =>
      rw [policy] at placedOk
      cases placedOk
      obtain ⟨region, nearby, ofRegion⟩ := List.mem_flatMap.mp member
      obtain ⟨subset, _, rfl⟩ := List.mem_map.mp ofRegion
      refine ⟨_, _, _, rfl, ?_⟩
      intro bound isRegion
      rw [List.mem_singleton.mp isRegion]
      exact List.mem_of_mem_filter nearby
  | oncePerProcess =>
      rw [policy] at placedOk
      cases placedOk
      obtain ⟨process, _, ofProcess⟩ := List.mem_flatMap.mp member
      obtain ⟨subset, _, rfl⟩ := List.mem_map.mp ofProcess
      exact ⟨_, _, _, rfl, List.filter_subset_self _⟩
  | outputOnce =>
      rw [policy] at placedOk
      obtain ⟨_, _, leadersOk⟩ := bind_eq_ok_iff.mp placedOk
      cases leadersOk
      obtain ⟨leader, _, ofLeader⟩ := List.mem_flatMap.mp member
      dsimp only at ofLeader
      split at ofLeader
      · cases ofLeader
      · obtain ⟨subset, _, rfl⟩ := List.mem_map.mp ofLeader
        exact ⟨_, _, _, rfl, List.filter_subset_self _⟩
  | synchronizing =>
      rw [policy] at placedOk
      cases placedOk
      rw [List.mem_singleton] at member
      exact ⟨_, _, _, member, List.nil_subset _⟩

/-- A unit that is bound to regions of the grid has the items of its policy. -/
theorem instantiate_of_known
    {position : Nat} {unit : WorkUnit} {regions : RegionSet} {subsets : List MaterialSubset}
    (regionsEq : unit.regions = some regions)
    (materialsEq : unit.materials = some subsets)
    (known : ∀ region ∈ regions, (grid.region? region).isSome = true) :
    instantiate grid settings placement position unit =
      orArithmetic (placedItems settings placement position unit regions subsets) := by
  have noneUnknown :
      (regions.toList.find? fun region => (grid.region? region).isNone) = none := by
    rw [List.find?_eq_none]
    intro region member
    rw [Option.isNone_iff_eq_none]
    exact Option.isSome_iff_ne_none.mp (known region member)
  unfold instantiate
  rw [regionsEq, materialsEq]
  dsimp only
  rw [noneUnknown]

theorem known_of_instantiate
    {position : Nat} {unit : WorkUnit} {regions : RegionSet} {subsets : List MaterialSubset}
    {placed : List WorkItem}
    (regionsEq : unit.regions = some regions)
    (materialsEq : unit.materials = some subsets)
    (placedOk : instantiate grid settings placement position unit = .ok placed) :
    ∀ region ∈ regions, (grid.region? region).isSome = true := by
  unfold instantiate at placedOk
  rw [regionsEq, materialsEq] at placedOk
  dsimp only at placedOk
  split at placedOk
  · cases placedOk
  · rename_i noneUnknown
    intro region member
    have notNone := List.find?_eq_none.mp noneUnknown region member
    rw [Option.isNone_iff_eq_none] at notNone
    exact Option.isSome_iff_ne_none.mpr notNone

theorem mem_instantiate
    {position : Nat} {unit : WorkUnit} {placed : List WorkItem} {item : WorkItem}
    (placedOk : instantiate grid settings placement position unit = .ok placed)
    (member : item ∈ placed) :
    ∃ bound materials process,
      item = itemOf placement position unit bound materials process ∧
        bound ⊆ unit.boundRegions := by
  cases regionsEq : unit.regions with
  | none =>
      unfold instantiate at placedOk
      cases materialsEq : unit.materials with
      | none =>
          rw [regionsEq, materialsEq] at placedOk
          cases placedOk
          rw [List.mem_singleton] at member
          exact ⟨_, _, _, member, List.nil_subset _⟩
      | some subsets =>
          rw [regionsEq, materialsEq] at placedOk
          cases placedOk
  | some regions =>
      have boundEq : unit.boundRegions = regions.toList := by
        rw [WorkUnit.boundRegions, regionsEq]
      cases materialsEq : unit.materials with
      | none =>
          unfold instantiate at placedOk
          rw [regionsEq, materialsEq] at placedOk
          cases placedOk
      | some subsets =>
          have known := known_of_instantiate regionsEq materialsEq placedOk
          rw [instantiate_of_known regionsEq materialsEq known, orArithmetic_eq_ok_iff] at placedOk
          rw [boundEq]
          exact mem_placedItems placedOk member

/-! ## What the position of a unit decides -/

/-- The item as one of the unit at a position. -/
def WorkItem.movedTo (item : WorkItem) (unit : WorkUnit) (position : Nat) : WorkItem :=
  { item with origin := .unit position, order := unit.seat.getD position }

theorem movedTo_itemOf
    (unit : WorkUnit) (position other : Nat) (regions : List RegionId)
    (materials : Option MaterialSubset) (process : Option ProcessId) :
    (itemOf placement position unit regions materials process).movedTo unit other =
      itemOf placement other unit regions materials process :=
  rfl

private theorem placedItems_movedTo
    (unit : WorkUnit) (position other : Nat) (regions : RegionSet)
    (subsets : List MaterialSubset) :
    placedItems settings placement other unit regions subsets =
      List.map (·.movedTo unit other) <$>
        placedItems settings placement position unit regions subsets := by
  unfold placedItems
  cases unit.policy with
  | perRegion =>
      simp only [Functor.map, Except.map, List.map_flatMap, List.map_map, Function.comp_def,
        movedTo_itemOf]
  | oncePerProcess =>
      simp only [Functor.map, Except.map, List.map_flatMap, List.map_map, Function.comp_def,
        movedTo_itemOf]
  | outputOnce =>
      cases checkOutputGroups settings placement with
      | error fault => rfl
      | ok checked =>
          simp only [Functor.map, Except.map, bind, Except.bind, pure, Except.pure,
            List.map_flatMap, apply_ite, List.map_nil, List.map_map, Function.comp_def,
            movedTo_itemOf]
  | synchronizing => rfl

/-- The position of a unit decides the origin and the order of its items and
nothing else. -/
theorem instantiate_movedTo (unit : WorkUnit) (position other : Nat) :
    instantiate grid settings placement other unit =
      List.map (·.movedTo unit other) <$> instantiate grid settings placement position unit := by
  unfold instantiate
  split
  · rfl
  · rfl
  · rfl
  · split
    · rfl
    · rw [placedItems_movedTo unit position other]
      generalize placedItems settings placement position unit _ _ = placed
      cases placed <;> rfl

/-! ## How placing fails -/

private theorem placedItems_eq_error
    {position : Nat} {unit : WorkUnit} {regions : RegionSet} {subsets : List MaterialSubset}
    {fault : Fault}
    (failed : placedItems settings placement position unit regions subsets = .error fault) :
    unit.policy = .outputOnce ∧ checkOutputGroups settings placement = .error fault := by
  unfold placedItems at failed
  cases policy : unit.policy with
  | perRegion => simp [policy] at failed
  | oncePerProcess => simp [policy] at failed
  | outputOnce =>
      rw [policy] at failed
      exact ⟨rfl, bind_pure_eq_error_iff.mp failed⟩
  | synchronizing => simp [policy] at failed

/-- What it takes to place a unit: it binds both halves of its placement or
none, and regions of the grid only. -/
structure WorkUnit.Placeable (grid : Grid) (unit : WorkUnit) : Prop where
  both_or_neither : unit.regions.isSome = unit.materials.isSome
  known : ∀ region ∈ unit.boundRegions, (grid.region? region).isSome = true

/-- Units that can be placed are placed, unless the numbers of output groups
overflow. -/
theorem instantiate_eq_error
    {position : Nat} {unit : WorkUnit} {error : Error}
    (placeable : unit.Placeable grid)
    (failed : instantiate grid settings placement position unit = .error error) :
    unit.policy = .outputOnce ∧
      ∃ fault, checkOutputGroups settings placement = .error fault ∧
        error = .arithmetic fault := by
  have bothOrNeither := placeable.both_or_neither
  cases regionsEq : unit.regions with
  | none =>
      cases materialsEq : unit.materials with
      | none => simp [instantiate, regionsEq, materialsEq] at failed
      | some subsets => simp [regionsEq, materialsEq] at bothOrNeither
  | some regions =>
      cases materialsEq : unit.materials with
      | none => simp [regionsEq, materialsEq] at bothOrNeither
      | some subsets =>
          have boundEq : unit.boundRegions = regions.toList := by
            rw [WorkUnit.boundRegions, regionsEq]
          rw [instantiate_of_known regionsEq materialsEq fun id member =>
            placeable.known id (boundEq ▸ member)] at failed
          cases outcome : placedItems settings placement position unit regions subsets with
          | ok placed => simp [outcome, orArithmetic] at failed
          | error fault =>
              rw [outcome] at failed
              cases failed
              obtain ⟨policy, overflow⟩ := placedItems_eq_error outcome
              exact ⟨policy, fault, overflow, rfl⟩

section Units

variable {units : List WorkUnit} {items : List WorkItem}

theorem exists_unit_of_mem_items
    {item : WorkItem}
    (itemsOk : instantiateAll grid settings placement units = .ok items)
    (member : item ∈ items) :
    ∃ position unit placed, units[position]? = some unit ∧
      instantiate grid settings placement position unit = .ok placed ∧ item ∈ placed := by
  obtain ⟨groups, groupsOk, flattened⟩ := bind_eq_ok_iff.mp itemsOk
  cases flattened
  obtain ⟨placed, placedMember, inPlaced⟩ := List.mem_flatten.mp member
  obtain ⟨⟨unit, position⟩, unitMember, placedOk⟩ := exists_of_mem_mapM groupsOk placedMember
  exact ⟨position, unit, placed, List.mk_mem_zipIdx_iff_getElem?.mp unitMember, placedOk, inPlaced⟩

/-- The items of units are no send items. -/
theorem isSend_eq_false_of_mem_items
    {item : WorkItem}
    (itemsOk : instantiateAll grid settings placement units = .ok items)
    (member : item ∈ items) :
    item.isSend = false := by
  obtain ⟨_, _, _, _, placedOk, inPlaced⟩ := exists_unit_of_mem_items itemsOk member
  obtain ⟨_, _, _, rfl, _⟩ := mem_instantiate placedOk inPlaced
  rfl

theorem instantiateAll_eq_error
    {error : Error}
    (placeable : ∀ unit ∈ units, unit.Placeable grid)
    (failed : instantiateAll grid settings placement units = .error error) :
    (∃ unit ∈ units, unit.policy = .outputOnce) ∧
      ∃ fault, checkOutputGroups settings placement = .error fault ∧
        error = .arithmetic fault := by
  obtain ⟨⟨unit, position⟩, member, unitFailed⟩ :=
    exists_error_of_mapM (bind_pure_eq_error_iff.mp failed)
  have unitMember : unit ∈ units :=
    List.mem_of_getElem? (List.mk_mem_zipIdx_iff_getElem?.mp member)
  obtain ⟨policy, overflow⟩ := instantiate_eq_error (placeable unit unitMember) unitFailed
  exact ⟨⟨unit, unitMember, policy⟩, overflow⟩

/-- The items that name a position are those of the unit there. -/
theorem filter_unit?_eq
    {position : Nat} {unit : WorkUnit} {placed : List WorkItem}
    (itemsOk : instantiateAll grid settings placement units = .ok items)
    (unitAt : units[position]? = some unit)
    (placedOk : instantiate grid settings placement position unit = .ok placed) :
    (items.filter fun item => decide (item.unit? = some position)) = placed := by
  obtain ⟨groups, groupsOk, flattened⟩ := bind_eq_ok_iff.mp itemsOk
  cases flattened
  let ofUnit (pair : WorkUnit × Nat) : List WorkItem :=
    (instantiate grid settings placement pair.2 pair.1).toOption.getD []
  have ofUnit_eq :
      ∀ pair made, instantiate grid settings placement pair.2 pair.1 = .ok made →
        ofUnit pair = made := by
    intro pair made madeOk
    dsimp only [ofUnit]
    rw [madeOk]
    rfl
  have groupsEq : groups = units.zipIdx.map ofUnit :=
    eq_map_of_mapM groupsOk fun pair _ => ofUnit_eq pair
  have named :
      ∀ pair ∈ units.zipIdx, ∀ item ∈ ofUnit pair,
        decide (item.unit? = some position) = decide (pair = (unit, position)) := by
    rintro ⟨other, place⟩ pairMember item member
    obtain ⟨made, _, madeOk⟩ := mapM_result_of_mem groupsOk pairMember
    have inMade : item ∈ made := ofUnit_eq (other, place) made madeOk ▸ member
    obtain ⟨_, _, _, rfl, _⟩ := mem_instantiate madeOk inMade
    rw [decide_eq_decide, Prod.mk.injEq]
    constructor
    · intro here
      cases here
      have otherAt := List.mk_mem_zipIdx_iff_getElem?.mp pairMember
      rw [unitAt] at otherAt
      cases otherAt
      exact ⟨rfl, rfl⟩
    · rintro ⟨_, rfl⟩
      rfl
  have distinct : units.zipIdx.Nodup := by
    apply List.Nodup.of_map Prod.snd
    rw [List.zipIdx_map_snd]
    exact List.nodup_range'
  rw [groupsEq, ← List.flatMap_def, filter_flatMap_of_iff named,
    flatMap_filter_eq_of_nodup distinct, if_pos (List.mk_mem_zipIdx_iff_getElem?.mpr unitAt)]
  exact ofUnit_eq (unit, position) placed placedOk

theorem exists_belongsTo
    {item : WorkItem}
    (seated : Seated units)
    (itemsOk : instantiateAll grid settings placement units = .ok items)
    (member : item ∈ items) :
    ∃ unit, item.BelongsTo units unit := by
  obtain ⟨position, unit, placed, unitAt, placedOk, inPlaced⟩ :=
    exists_unit_of_mem_items itemsOk member
  obtain ⟨bound, materials, process, rfl, _⟩ := mem_instantiate placedOk inPlaced
  have orderEq :
      (itemOf placement position unit bound materials process).order = position := by
    show unit.seat.getD position = position
    rw [seated position unit unitAt, Option.getD_some]
  refine ⟨unit, ?_, ?_⟩
  · rw [orderEq]
    rfl
  · rw [orderEq]
    exact unitAt

/-- A relation that holds among the items of each unit, and from the items of a
unit to those of all later units, holds from each item to all later ones. -/
theorem pairwise_items
    {R : WorkItem → WorkItem → Prop}
    (itemsOk : instantiateAll grid settings placement units = .ok items)
    (within : ∀ position unit placed, units[position]? = some unit →
      instantiate grid settings placement position unit = .ok placed → placed.Pairwise R)
    (across : ∀ left right earlier later,
      left.unit? = some earlier → right.unit? = some later → earlier < later → R left right) :
    items.Pairwise R := by
  obtain ⟨groups, groupsOk, flattened⟩ := bind_eq_ok_iff.mp itemsOk
  cases flattened
  rw [List.pairwise_flatten]
  constructor
  · intro placed placedMember
    obtain ⟨⟨unit, position⟩, unitMember, placedOk⟩ := exists_of_mem_mapM groupsOk placedMember
    exact within position unit placed (List.mk_mem_zipIdx_iff_getElem?.mp unitMember) placedOk
  · have positions : (units.zipIdx.map Prod.snd).Pairwise (· < ·) := by
      rw [List.zipIdx_map_snd]
      exact List.pairwise_lt_range'
    rw [List.pairwise_map] at positions
    refine mapM_pairwise groupsOk positions ?_
    intro left right leftPlaced rightPlaced leftOk rightOk before leftItem inLeft rightItem inRight
    obtain ⟨_, _, _, rfl, _⟩ := mem_instantiate leftOk inLeft
    obtain ⟨_, _, _, rfl, _⟩ := mem_instantiate rightOk inRight
    exact across _ _ left.2 right.2 rfl rfl before

/-- Items stand in the order of their units. -/
theorem order_le_of_lt
    {first second : Nat} {earlier later : WorkItem}
    (seated : Seated units)
    (itemsOk : instantiateAll grid settings placement units = .ok items)
    (firstAt : items[first]? = some earlier)
    (secondAt : items[second]? = some later)
    (before : first < second) :
    earlier.order ≤ later.order := by
  have ordered :
      items.Pairwise fun left right =>
        ∀ p q, left.unit? = some p → right.unit? = some q → p ≤ q := by
    refine pairwise_items itemsOk (fun position unit placed _ placedOk => ?_) ?_
    · refine List.pairwise_of_forall_mem_list fun left leftMember right rightMember p q => ?_
      obtain ⟨_, _, _, rfl, _⟩ := mem_instantiate placedOk leftMember
      obtain ⟨_, _, _, rfl, _⟩ := mem_instantiate placedOk rightMember
      intro leftUnit rightUnit
      cases leftUnit
      cases rightUnit
      exact Nat.le_refl position
    · intro left right p q leftUnit rightUnit less p' q' leftUnit' rightUnit'
      rw [leftUnit] at leftUnit'
      rw [rightUnit] at rightUnit'
      cases leftUnit'
      cases rightUnit'
      exact Nat.le_of_lt less
  obtain ⟨firstBound, atFirst⟩ := List.getElem?_eq_some_iff.mp firstAt
  obtain ⟨secondBound, atSecond⟩ := List.getElem?_eq_some_iff.mp secondAt
  obtain ⟨_, earlierBelongs⟩ := exists_belongsTo seated itemsOk (List.mem_of_getElem? firstAt)
  obtain ⟨_, laterBelongs⟩ := exists_belongsTo seated itemsOk (List.mem_of_getElem? secondAt)
  refine List.pairwise_iff_getElem.mp ordered first second firstBound secondBound before _ _ ?_ ?_
  · rw [atFirst]
    exact earlierBelongs.unit?_eq
  · rw [atSecond]
    exact laterBelongs.unit?_eq

end Units

end MeshTasks
