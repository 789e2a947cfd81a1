import MeshTasks.Proofs.Distribution.Neighborhoods
import MeshTasks.Proofs.Items.Blueprint
import MeshTasks.Proofs.Selection
import MeshTasks.Proofs.Units.Regional

/-!
# A part of the items

Of units that are spread over regions a process makes the items on the regions
of its neighborhood, in the order in which the first process makes them all. So
its items are a part of those of the serial placement, and have places there
that ascend with their own.
-/

namespace MeshTasks

/-- The item as the first process runs it. -/
def WorkItem.serial (item : WorkItem) : WorkItem := { item with process := ⟨0⟩ }

/-- Whether the regions of an item all lie in the neighborhood. -/
def Placement.keeps (placement : Placement) (item : WorkItem) : Bool :=
  item.regions.all placement.isNear

/-- The items of the unit at a position that is spread over regions. -/
def slotItems (placement : Placement) (position : Nat) (unit : WorkUnit) : List WorkItem :=
  regionItems placement position unit (unit.regions.getD .empty) (unit.materials.getD [])

section

variable {grid : Grid} {settings : Settings} {placement : Placement} {units : List WorkUnit}

/-- All regions that a unit is bound to are regions of the grid. -/
def WorkUnit.OnGrid (grid : Grid) (unit : WorkUnit) : Prop :=
  ∀ region ∈ unit.regions.getD .empty, (grid.region? region).isSome = true

private theorem instantiate_regional
    {position : Nat} {unit : WorkUnit} {placed : List WorkItem}
    (regional : unit.Regional) :
    instantiate grid settings placement position unit = .ok placed ↔
      unit.OnGrid grid ∧ placed = slotItems placement position unit := by
  obtain ⟨regions, regionsEq⟩ := Option.isSome_iff_exists.mp regional.on_regions
  obtain ⟨subsets, materialsEq⟩ := Option.isSome_iff_exists.mp regional.with_materials
  rw [instantiate_perRegion regional.per_region regionsEq materialsEq]
  unfold slotItems WorkUnit.OnGrid
  rw [regionsEq, materialsEq]
  exact Iff.rfl

theorem onGrid_of_instantiateAll
    {items : List WorkItem}
    (regional : ∀ unit ∈ units, unit.Regional)
    (itemsOk : instantiateAll grid settings placement units = .ok items) :
    ∀ unit ∈ units, unit.OnGrid grid := by
  intro unit member
  obtain ⟨groups, groupsOk, _⟩ := bind_eq_ok_iff.mp itemsOk
  obtain ⟨position, unitAt⟩ := List.mem_iff_getElem?.mp member
  have pairMember : (unit, position) ∈ units.zipIdx := List.mk_mem_zipIdx_iff_getElem?.mpr unitAt
  obtain ⟨placed, _, placedOk⟩ := mapM_result_of_mem groupsOk pairMember
  exact ((instantiate_regional (regional unit member)).mp placedOk).1

/-- Units that are spread over regions of the grid can be instantiated under any
placement. -/
theorem instantiateAll_of_onGrid
    (regional : ∀ unit ∈ units, unit.Regional)
    (onGrid : ∀ unit ∈ units, unit.OnGrid grid) :
    instantiateAll grid settings placement units =
      .ok (units.zipIdx.flatMap fun pair => slotItems placement pair.2 pair.1) := by
  have succeeds :
      ∀ pair ∈ units.zipIdx,
        instantiate grid settings placement pair.2 pair.1 =
          .ok (slotItems placement pair.2 pair.1) := by
    intro pair member
    have unitMember : pair.1 ∈ units :=
      List.mem_of_getElem? (List.mk_mem_zipIdx_iff_getElem?.mp (Prod.eta pair ▸ member))
    exact (instantiate_regional (regional _ unitMember)).mpr ⟨onGrid _ unitMember, rfl⟩
  exact bind_eq_ok_iff.mpr ⟨_, mapM_eq_ok_map succeeds, rfl⟩

/-- Items stand on regions of the grid. -/
theorem isSome_region?_of_mem_items
    {items : List WorkItem} {item : WorkItem} {region : RegionId}
    (regional : ∀ unit ∈ units, unit.Regional)
    (itemsOk : instantiateAll grid settings placement units = .ok items)
    (member : item ∈ items)
    (inItem : region ∈ item.regions) :
    (grid.region? region).isSome = true := by
  obtain ⟨position, unit, placed, unitAt, placedOk, inPlaced⟩ :=
    exists_unit_of_mem_items itemsOk member
  obtain ⟨onGrid, rfl⟩ :=
    (instantiate_regional (regional unit (List.mem_of_getElem? unitAt))).mp placedOk
  obtain ⟨bound, nearby, _, _, rfl⟩ := mem_regionItems.mp inPlaced
  rw [List.mem_singleton.mp inItem]
  exact onGrid bound (OrderedSet.mem_filter.mp nearby).1

/-- The items of the serial placement whose regions lie in a neighborhood are
those of that neighborhood, but for the process that runs them. -/
private theorem filter_slotItems
    {whole part : Placement} {position : Nat} {unit : WorkUnit}
    (serial : whole.IsSerial grid)
    (onGrid : unit.OnGrid grid) :
    (slotItems whole position unit).filter part.keeps =
      (slotItems part position unit).map WorkItem.serial := by
  have everywhere :
      (whole.nearby (unit.regions.getD .empty)).toList = (unit.regions.getD .empty).toList := by
    apply List.filter_eq_self.mpr
    intro region member
    exact serial.isNear_eq region (onGrid region member)
  unfold slotItems regionItems
  rw [everywhere, List.map_flatMap]
  have kept :
      ∀ region ∈ (unit.regions.getD .empty).toList,
        ∀ item ∈ (unit.materials.getD []).map fun subset =>
            itemOf whole position unit [region] (some subset) none,
          part.keeps item = part.isNear region := by
    intro region _ item member
    obtain ⟨subset, _, rfl⟩ := List.mem_map.mp member
    show ([region].all part.isNear) = part.isNear region
    rw [List.all_cons, List.all_nil, Bool.and_true]
  rw [filter_flatMap_of_iff kept]
  show List.flatMap _ (part.nearby (unit.regions.getD .empty)).toList = _
  rw [List.flatMap_def, List.flatMap_def]
  congr 1
  apply List.map_congr_left
  intro region member
  have present := onGrid region (List.mem_filter.mp member).1
  have owned := serial.owner?_eq region present
  rw [List.map_map]
  apply List.map_congr_left
  intro subset _
  show itemOf whole position unit [region] (some subset) none =
    (itemOf part position unit [region] (some subset) none).serial
  unfold itemOf WorkItem.serial Placement.assign
  rw [List.head?_cons, Option.bind_some, owned]
  rfl

theorem filter_instantiateAll
    {whole part : Placement} {wholeItems partItems : List WorkItem}
    (serial : whole.IsSerial grid)
    (regional : ∀ unit ∈ units, unit.Regional)
    (wholeOk : instantiateAll grid settings whole units = .ok wholeItems)
    (partOk : instantiateAll grid settings part units = .ok partItems) :
    wholeItems.filter part.keeps = partItems.map WorkItem.serial := by
  have onGrid := onGrid_of_instantiateAll regional wholeOk
  rw [instantiateAll_of_onGrid regional onGrid] at wholeOk partOk
  cases wholeOk
  cases partOk
  rw [List.filter_flatMap, List.map_flatMap, List.flatMap_def, List.flatMap_def]
  congr 1
  apply List.map_congr_left
  intro pair member
  have unitMember : pair.1 ∈ units :=
    List.mem_of_getElem? (List.mk_mem_zipIdx_iff_getElem?.mp (Prod.eta pair ▸ member))
  exact filter_slotItems serial (onGrid _ unitMember)

end

/-! ## Places -/

/-- Where the items of a part stand in the whole: first the kept items at places
that are listed, then all others behind a certain place. -/
def placeAmong (kept : List Nat) (base : Nat) (after : Nat → Nat) (id : Nat) : Nat :=
  if bound : id < kept.length then kept[id] else base + after (id - kept.length)

private theorem placeAmong_of_lt
    {kept : List Nat} {base : Nat} {after : Nat → Nat} {id : Nat}
    (bound : id < kept.length) :
    placeAmong kept base after id = kept[id] :=
  dif_pos bound

theorem placeAmong_add_length
    {kept : List Nat} {base : Nat} {after : Nat → Nat} (place : Nat) :
    placeAmong kept base after (kept.length + place) = base + after place := by
  unfold placeAmong
  rw [dif_neg (Nat.not_lt_of_le (Nat.le_add_right _ _)), Nat.add_sub_cancel_left]

theorem placeAmong_injective
    {kept : List Nat} {base : Nat} {after : Nat → Nat}
    (ascending : kept.Pairwise (· < ·))
    (below : ∀ id ∈ kept, id < base)
    (injective : Function.Injective after) :
    Function.Injective (placeAmong kept base after) := by
  intro first second same
  unfold placeAmong at same
  by_cases firstKept : first < kept.length
  · by_cases secondKept : second < kept.length
    · rw [dif_pos firstKept, dif_pos secondKept] at same
      have distinct : kept.Nodup := ascending.imp Nat.ne_of_lt
      exact (distinct.getElem_inj_iff).mp same
    · rw [dif_pos firstKept, dif_neg secondKept] at same
      have bound := below kept[first] (List.getElem_mem firstKept)
      omega
  · by_cases secondKept : second < kept.length
    · rw [dif_neg firstKept, dif_pos secondKept] at same
      have bound := below kept[second] (List.getElem_mem secondKept)
      omega
    · rw [dif_neg firstKept, dif_neg secondKept] at same
      have behind := injective (Nat.add_left_cancel same)
      omega

/-- The items of a part stand in the whole, in their order, at places where
exactly the kept items are. -/
structure IsPart (whole part : List WorkItem) (keeps : WorkItem → Bool) (place : Nat → Nat) :
    Prop where
  kept_eq : (TaskGraph.ofItems whole).itemsWhere keeps = (List.range part.length).map place
  item_at : ∀ id item, part[id]? = some item → whole[place id]? = some item.serial

private theorem map_itemsWhere (items : List WorkItem) (test : WorkItem → Bool) :
    ((TaskGraph.ofItems items).itemsWhere test).map (items[·]?) =
      (items.filter test).map some := by
  have asOption :
      (TaskGraph.ofItems items).itemsWhere test =
        (List.range items.length).filter ((Option.any test) ∘ (items[·]?)) := by
    unfold TaskGraph.itemsWhere
    apply List.filter_congr
    intro id _
    rw [Function.comp_apply]
    have sameItems : (TaskGraph.ofItems items).items = items := rfl
    rw [sameItems]
    cases items[id]? with
    | none => rfl
    | some item => rfl
  rw [asOption, ← List.filter_map, map_getElem?_range, List.filter_map]
  rfl

theorem length_itemsWhere
    {whole part : List WorkItem} {keeps : WorkItem → Bool}
    (filtered : whole.filter keeps = part.map WorkItem.serial) :
    ((TaskGraph.ofItems whole).itemsWhere keeps).length = part.length := by
  have lengths := congrArg List.length (map_itemsWhere whole keeps)
  rw [filtered, List.length_map, List.length_map, List.length_map] at lengths
  exact lengths

theorem isPart_placeAmong
    {whole part : List WorkItem} {keeps : WorkItem → Bool}
    (filtered : whole.filter keeps = part.map WorkItem.serial)
    (base : Nat) (after : Nat → Nat) :
    IsPart whole part keeps
      (placeAmong ((TaskGraph.ofItems whole).itemsWhere keeps) base after) := by
  have found := map_itemsWhere whole keeps
  rw [filtered] at found
  have sameLength := length_itemsWhere filtered
  constructor
  · apply List.ext_getElem
    · rw [List.length_map, List.length_range, sameLength]
    · intro id bound _
      rw [List.getElem_map, List.getElem_range, placeAmong_of_lt bound]
  · intro id item itemAt
    have bound : id < ((TaskGraph.ofItems whole).itemsWhere keeps).length := by
      rw [sameLength]
      exact (List.getElem?_eq_some_iff.mp itemAt).1
    have atPlace := congrArg (fun list => list[id]?) found
    rw [List.getElem?_map, List.getElem?_eq_getElem bound, List.getElem?_map, List.getElem?_map,
      itemAt] at atPlace
    rw [placeAmong_of_lt bound]
    exact Option.some.inj atPlace

namespace IsPart

variable {whole part : List WorkItem} {keeps : WorkItem → Bool} {place : Nat → Nat}

private theorem ascends
    (isPart : IsPart whole part keeps place)
    {first second : Nat}
    (before : first < second)
    (bound : second < part.length) :
    place first < place second := by
  have ascending := (TaskGraph.ofItems whole).pairwise_itemsWhere keeps
  rw [isPart.kept_eq, List.pairwise_map] at ascending
  have atPlaces :=
    List.pairwise_iff_getElem.mp ascending first second
      (by rw [List.length_range]; omega) (by rw [List.length_range]; exact bound) before
  rw [List.getElem_range, List.getElem_range] at atPlaces
  exact atPlaces

theorem lt_iff_lt
    (isPart : IsPart whole part keeps place)
    {first second : Nat}
    (firstBound : first < part.length)
    (secondBound : second < part.length) :
    place first < place second ↔ first < second := by
  constructor
  · intro less
    by_contra notBefore
    rcases Nat.eq_or_lt_of_le (Nat.le_of_not_lt notBefore) with same | after
    · rw [same] at less
      exact Nat.lt_irrefl _ less
    · exact Nat.lt_asymm less (isPart.ascends after firstBound)
  · intro before
    exact isPart.ascends before secondBound

/-- Every kept item of the whole is an item of the part. -/
theorem exists_place
    (isPart : IsPart whole part keeps place)
    {position : Nat} {item : WorkItem}
    (itemAt : whole[position]? = some item)
    (kept : keeps item = true) :
    ∃ id < part.length, place id = position := by
  have member : position ∈ (TaskGraph.ofItems whole).itemsWhere keeps :=
    TaskGraph.mem_itemsWhere.mpr ⟨item, itemAt, kept⟩
  rw [isPart.kept_eq] at member
  obtain ⟨id, inRange, placeEq⟩ := List.mem_map.mp member
  exact ⟨id, List.mem_range.mp inRange, placeEq⟩

theorem place_lt
    (isPart : IsPart whole part keeps place)
    {id : Nat}
    (bound : id < part.length) :
    place id < whole.length := by
  have itemAt := isPart.item_at id part[id] (List.getElem?_eq_getElem bound)
  exact (List.getElem?_eq_some_iff.mp itemAt).1

end IsPart

end MeshTasks
