import MeshTasks.Proofs.FirstExecution
import MeshTasks.Proofs.Units.Regional

/-!
# Values with two producers

A value that is no reduction may be computed by one unit only. Whether two units
compute one value is decided by what each of them computes on its own, so it
does not matter in which order units stand or in which order their results are
recorded.
-/

namespace MeshTasks

/-- The outcome is the report of a value with two producers. -/
def ReportsDuplicate {α : Type} (outcome : Except Error α) : Prop :=
  ∃ label region material first second,
    outcome = .error (.duplicateProducer label region material first second)

/-- On an item a unit computes a value by one of its accesses, known by a region
and a material that the access touches there. If the unit is bound to regions
and the item has none of them, the value is one for the whole domain. -/
def WorkUnit.ComputesOn (unit : WorkUnit) (item : WorkItem) (key : ValueKey) : Prop :=
  ∃ access ∈ unit.computes,
    (unit.isGlobal = true ∨ item.regions ≠ [] ∨ access.isDomainWide = true) ∧
      key.label = access.label ∧ key.region ∈ regionKeys access item ∧
        key.material ∈ materialKeys access item

private theorem takesPart_iff {unit : WorkUnit} {item : WorkItem} {access : Access} :
    takesPart unit item access = true ↔
      unit.isGlobal = true ∨ item.regions ≠ [] ∨ access.isDomainWide = true := by
  simp [takesPart, or_assoc]

/-- The unit at a position computes a value on one of its items. -/
structure ComputesAt (units : List WorkUnit) (items : List WorkItem) (position : Nat)
    (unit : WorkUnit) (key : ValueKey) : Prop where
  unit_at : units[position]? = some unit
  on_item : ∃ item ∈ items, item.unit? = some position ∧ unit.ComputesOn item key

/-- Two units at different positions compute one value that is no reduction. -/
structure ComputedTwice (units : List WorkUnit) (items : List WorkItem) (key : ValueKey)
    (left right : WorkUnit) : Prop where
  not_reduction : key.label.isReduction = false
  apart : ∃ first second, first ≠ second ∧ ComputesAt units items first left key ∧
    ComputesAt units items second right key

variable {grid : Grid} {settings : Settings} {placement : Placement}

section Recorded

variable {units : List WorkUnit} {items : List WorkItem}

/-- A recording of a result comes from the unit that computes it. -/
private theorem exists_computesAt_of_mem_allRecordings
    {recording : Recording}
    (declared : ∀ unit ∈ units, unit.Declared)
    (itemsOk : instantiateAll grid settings placement units = .ok items)
    (member : recording ∈ allRecordings units (.ofItems items))
    (computes : recording.entry.mode = .computes) :
    ∃ position unit, recording.unit? (.ofItems items) = some position ∧
      recording.itemName (.ofItems items) = unit.name ∧
        ComputesAt units items position unit recording.key := by
  obtain ⟨item, unit, access, made⟩ := mem_allRecordings.mp member
  have inItems : item ∈ items := List.mem_of_getElem? made.item_at
  obtain ⟨position, owner, placed, ownerAt, placedOk, inPlaced⟩ :=
    exists_unit_of_mem_items itemsOk inItems
  obtain ⟨bound, materials, process, rfl, _⟩ := mem_instantiate placedOk inPlaced
  have sameUnit : owner = unit := Option.some.inj (ownerAt.symm.trans made.unit_of)
  subst sameUnit
  have accessComputes : access.mode = .computes := made.mode_eq.symm.trans computes
  have inComputes : access ∈ owner.computes := by
    rcases List.mem_append.mp made.produced with computed | modified
    · exact computed
    · have ownerDeclared := declared owner (List.mem_of_getElem? ownerAt)
      have modifies := ownerDeclared.modifies_mode access modified
      rw [accessComputes] at modifies
      cases modifies
  refine ⟨position, owner, ?_, ?_, ownerAt, _, inItems, rfl, access, inComputes,
    takesPart_iff.mp made.takes_part, mem_producedKeys_iff.mp made.key_mem⟩
  · rw [Recording.unit?, made.item_at]
    rfl
  · rw [Recording.itemName, made.item_at]
    rfl

/-- What a unit computes on an item is recorded. -/
private theorem ComputesAt.exists_recording
    {position : Nat} {unit : WorkUnit} {key : ValueKey}
    (computesAt : ComputesAt units items position unit key)
    (declared : unit.Declared) :
    ∃ recording ∈ allRecordings units (.ofItems items),
      recording.key = key ∧ recording.entry.mode = .computes ∧
        recording.unit? (.ofItems items) = some position := by
  obtain ⟨unitAt, item, inItems, ofUnit, access, inComputes, takes, inKeys⟩ := computesAt
  obtain ⟨id, itemAt⟩ := List.mem_iff_getElem?.mp inItems
  let recording : Recording := ⟨key, id, item.order, .computes⟩
  have unitOf : item.unit?.bind (units[·]?) = some unit := by
    rw [ofUnit]
    exact unitAt
  have made : recording.MadeBy units (.ofItems items) item unit access :=
    ⟨itemAt, unitOf, List.mem_append_left _ inComputes, takesPart_iff.mpr takes,
      mem_producedKeys_iff.mpr inKeys, rfl, (declared.computes_mode access inComputes).symm⟩
  refine ⟨recording, mem_allRecordings.mpr ⟨item, unit, access, made⟩, rfl, rfl, ?_⟩
  rw [Recording.unit?, made.item_at]
  exact ofUnit

/-- The units that a report names both compute the value that it tells. -/
theorem computedTwice_of_blueprint
    {label : String} {region : Option RegionId} {material : Option MaterialId}
    {first second : String}
    (declared : ∀ unit ∈ units, unit.Declared)
    (itemsOk : instantiateAll grid settings placement units = .ok items)
    (failed : blueprint grid settings placement units =
      .error (.duplicateProducer label region material first second)) :
    ∃ key left right, ComputedTwice units items key left right ∧ key.label.name = label ∧
      key.region = region ∧ key.material = material ∧ left.name = first ∧
        right.name = second := by
  obtain ⟨earlier, earlierMember, later, laterMember, clash, reported⟩ :=
    exists_clash_of_blueprint itemsOk failed
  simp only [Recording.Agrees, Classical.not_imp] at clash
  obtain ⟨notReduction, sameKey, earlierComputes, laterComputes, differ⟩ := clash
  obtain ⟨leftPosition, left, leftUnit, leftName, leftAt⟩ :=
    exists_computesAt_of_mem_allRecordings declared itemsOk earlierMember earlierComputes
  obtain ⟨rightPosition, right, rightUnit, rightName, rightAt⟩ :=
    exists_computesAt_of_mem_allRecordings declared itemsOk laterMember laterComputes
  have apart : leftPosition ≠ rightPosition := by
    rintro rfl
    exact differ (leftUnit.trans rightUnit.symm)
  rw [Recording.report, leftName, rightName] at reported
  cases reported
  exact ⟨later.key, left, right,
    ⟨notReduction, leftPosition, rightPosition, apart, sameKey ▸ leftAt, rightAt⟩,
    rfl, rfl, rfl, rfl, rfl⟩

/-- Whenever two units compute one value, this is reported. -/
theorem ComputedTwice.reportsDuplicate
    {key : ValueKey} {left right : WorkUnit}
    (declared : ∀ unit ∈ units, unit.Declared)
    (itemsOk : instantiateAll grid settings placement units = .ok items)
    (twice : ComputedTwice units items key left right) :
    ReportsDuplicate (blueprint grid settings placement units) := by
  obtain ⟨notReduction, leftPosition, rightPosition, apart, leftAt, rightAt⟩ := twice
  cases outcome : blueprint grid settings placement units with
  | error error =>
      obtain ⟨earlier, _, later, _, _, rfl⟩ := exists_clash_of_blueprint itemsOk outcome
      exact ⟨_, _, _, _, _, rfl⟩
  | ok built =>
      obtain ⟨items', itemsOk', _, agreed⟩ := blueprint_eq_ok_iff.mp outcome
      rw [itemsOk] at itemsOk'
      cases itemsOk'
      obtain ⟨earlier, earlierMember, rfl, earlierComputes, earlierUnit⟩ :=
        leftAt.exists_recording (declared left (List.mem_of_getElem? leftAt.unit_at))
      obtain ⟨later, laterMember, sameKey, laterComputes, laterUnit⟩ :=
        rightAt.exists_recording (declared right (List.mem_of_getElem? rightAt.unit_at))
      have sameUnit :=
        Recording.unit?_eq_of_computes agreed earlierMember laterMember notReduction
          sameKey.symm earlierComputes laterComputes
      rw [earlierUnit, laterUnit] at sameUnit
      exact absurd (Option.some.inj sameUnit) apart

end Recorded

/-! ## Regardless of the order of the units -/

/-- A unit computes a value on one of the items that it has wherever it
stands. -/
def WorkUnit.MayCompute (grid : Grid) (settings : Settings) (placement : Placement)
    (unit : WorkUnit) (key : ValueKey) : Prop :=
  ∃ placed, instantiate grid settings placement 0 unit = .ok placed ∧
    ∃ item ∈ placed, unit.ComputesOn item key

/-- Two units compute one value that is no reduction. -/
def Contend (grid : Grid) (settings : Settings) (placement : Placement) (left right : WorkUnit) :
    Prop :=
  ∃ key, key.label.isReduction = false ∧ left.MayCompute grid settings placement key ∧
    right.MayCompute grid settings placement key

theorem Contend.symm
    {left right : WorkUnit}
    (contend : Contend grid settings placement left right) :
    Contend grid settings placement right left := by
  obtain ⟨key, notReduction, byLeft, byRight⟩ := contend
  exact ⟨key, notReduction, byRight, byLeft⟩

/-- An item is told by its regions and materials as far as results are
concerned. -/
private theorem WorkUnit.computesOn_movedTo
    {unit : WorkUnit} {item : WorkItem} {position : Nat} {key : ValueKey} :
    unit.ComputesOn (item.movedTo unit position) key ↔ unit.ComputesOn item key :=
  Iff.rfl

private theorem WorkUnit.mayCompute_iff
    {unit : WorkUnit} {position : Nat} {placed : List WorkItem} {key : ValueKey}
    (placedOk : instantiate grid settings placement position unit = .ok placed) :
    unit.MayCompute grid settings placement key ↔
      ∃ item ∈ placed, unit.ComputesOn item key := by
  have atStart :
      instantiate grid settings placement 0 unit = .ok (placed.map (·.movedTo unit 0)) := by
    rw [instantiate_movedTo unit position 0, placedOk]
    rfl
  unfold MayCompute
  rw [atStart]
  simp only [Except.ok.injEq, exists_eq_left', List.mem_map, exists_exists_and_eq_and,
    computesOn_movedTo]

/-- Whether a unit can be placed does not depend on its position. -/
theorem exists_instantiate_iff {unit : WorkUnit} (position other : Nat) :
    (∃ placed, instantiate grid settings placement position unit = .ok placed) ↔
      ∃ placed, instantiate grid settings placement other unit = .ok placed := by
  rw [instantiate_movedTo unit other position]
  simp only [map_eq_ok_iff]
  rw [exists_comm]
  simp only [exists_and_left, exists_eq', and_true]

section Order

variable {units : List WorkUnit} {items : List WorkItem}

/-- All units are placed if each of them can be. -/
theorem exists_instantiateAll_iff :
    (∃ items, instantiateAll grid settings placement units = .ok items) ↔
      ∀ unit ∈ units, ∃ placed, instantiate grid settings placement 0 unit = .ok placed := by
  constructor
  · rintro ⟨items, itemsOk⟩ unit member
    obtain ⟨groups, groupsOk, _⟩ := bind_eq_ok_iff.mp itemsOk
    obtain ⟨position, unitAt⟩ := List.mem_iff_getElem?.mp member
    obtain ⟨placed, _, placedOk⟩ :=
      mapM_result_of_mem groupsOk (List.mk_mem_zipIdx_iff_getElem?.mpr unitAt)
    exact (exists_instantiate_iff position 0).mp ⟨placed, placedOk⟩
  · intro succeeds
    cases outcome : instantiateAll grid settings placement units with
    | ok items => exact ⟨items, rfl⟩
    | error error =>
        obtain ⟨⟨unit, position⟩, member, unitFailed⟩ :=
          exists_error_of_mapM (bind_pure_eq_error_iff.mp outcome)
        have unitAt := List.mk_mem_zipIdx_iff_getElem?.mp member
        obtain ⟨placed, placedOk⟩ :=
          (exists_instantiate_iff 0 position).mp (succeeds unit (List.mem_of_getElem? unitAt))
        exact absurd (unitFailed.symm.trans placedOk) nofun

private theorem computesAt_iff
    {position : Nat} {unit : WorkUnit} {key : ValueKey}
    (itemsOk : instantiateAll grid settings placement units = .ok items) :
    ComputesAt units items position unit key ↔
      units[position]? = some unit ∧ unit.MayCompute grid settings placement key := by
  constructor
  · rintro ⟨unitAt, item, inItems, ofUnit, computesOn⟩
    obtain ⟨place, owner, placed, ownerAt, placedOk, inPlaced⟩ :=
      exists_unit_of_mem_items itemsOk inItems
    obtain ⟨_, _, _, rfl, _⟩ := mem_instantiate placedOk inPlaced
    cases ofUnit
    rw [unitAt] at ownerAt
    cases ownerAt
    exact ⟨unitAt, (WorkUnit.mayCompute_iff placedOk).mpr ⟨_, inPlaced, computesOn⟩⟩
  · rintro ⟨unitAt, mayCompute⟩
    have placeable :=
      exists_instantiateAll_iff.mp ⟨items, itemsOk⟩ unit (List.mem_of_getElem? unitAt)
    obtain ⟨placed, placedOk⟩ := (exists_instantiate_iff 0 position).mp placeable
    obtain ⟨item, inPlaced, computesOn⟩ := (WorkUnit.mayCompute_iff placedOk).mp mayCompute
    rw [← filter_unit?_eq itemsOk unitAt placedOk, List.mem_filter] at inPlaced
    exact ⟨unitAt, item, inPlaced.1, of_decide_eq_true inPlaced.2, computesOn⟩

private theorem exists_computedTwice_iff
    (itemsOk : instantiateAll grid settings placement units = .ok items) :
    (∃ key left right, ComputedTwice units items key left right) ↔
      ¬ units.Pairwise fun left right => ¬ Contend grid settings placement left right := by
  rw [List.pairwise_iff_getElem]
  constructor
  · rintro ⟨key, left, right, notReduction, first, second, apart, leftAt, rightAt⟩ peaceful
    rw [computesAt_iff itemsOk] at leftAt rightAt
    obtain ⟨leftUnit, byLeft⟩ := leftAt
    obtain ⟨rightUnit, byRight⟩ := rightAt
    obtain ⟨firstBound, rfl⟩ := List.getElem?_eq_some_iff.mp leftUnit
    obtain ⟨secondBound, rfl⟩ := List.getElem?_eq_some_iff.mp rightUnit
    have contend : Contend grid settings placement units[first] units[second] :=
      ⟨key, notReduction, byLeft, byRight⟩
    rcases Nat.lt_or_gt_of_ne apart with before | after
    · exact peaceful first second firstBound secondBound before contend
    · exact peaceful second first secondBound firstBound after contend.symm
  · intro contended
    simp only [not_forall, not_not] at contended
    obtain ⟨first, second, firstBound, secondBound, before, contend⟩ := contended
    obtain ⟨key, notReduction, byLeft, byRight⟩ := contend
    refine ⟨key, units[first], units[second], notReduction, first, second, Nat.ne_of_lt before,
      ?_, ?_⟩
    · exact (computesAt_iff itemsOk).mpr ⟨List.getElem?_eq_getElem firstBound, byLeft⟩
    · exact (computesAt_iff itemsOk).mpr ⟨List.getElem?_eq_getElem secondBound, byRight⟩

/-- A report that a value has two producers is made of items. -/
private theorem exists_items_of_reportsDuplicate
    (placeable : ∀ unit ∈ units, unit.Placeable grid)
    (reports : ReportsDuplicate (blueprint grid settings placement units)) :
    ∃ items, instantiateAll grid settings placement units = .ok items := by
  obtain ⟨_, _, _, _, _, failed⟩ := reports
  cases outcome : instantiateAll grid settings placement units with
  | ok items => exact ⟨items, rfl⟩
  | error error =>
      obtain ⟨_, fault, _, rfl⟩ := instantiateAll_eq_error placeable outcome
      rw [blueprint, outcome] at failed
      cases failed

private theorem reportsDuplicate_iff
    (declared : ∀ unit ∈ units, unit.Declared)
    (placeable : ∀ unit ∈ units, unit.Placeable grid) :
    ReportsDuplicate (blueprint grid settings placement units) ↔
      ∃ items, instantiateAll grid settings placement units = .ok items ∧
        ∃ key left right, ComputedTwice units items key left right := by
  constructor
  · intro reports
    obtain ⟨items, itemsOk⟩ := exists_items_of_reportsDuplicate placeable reports
    obtain ⟨_, _, _, _, _, failed⟩ := reports
    obtain ⟨key, left, right, twice, _⟩ := computedTwice_of_blueprint declared itemsOk failed
    exact ⟨items, itemsOk, key, left, right, twice⟩
  · rintro ⟨items, itemsOk, key, left, right, twice⟩
    exact twice.reportsDuplicate declared itemsOk

/-- Neither placing units nor what they compute depends on the order in which
they stand. -/
theorem reportsDuplicate_iff_of_perm
    {other : List WorkUnit}
    (declared : ∀ unit ∈ units, unit.Declared)
    (placeable : ∀ unit ∈ units, unit.Placeable grid)
    (perm : units.Perm other) :
    ReportsDuplicate (blueprint grid settings placement units) ↔
      ReportsDuplicate (blueprint grid settings placement other) := by
  have decided :
      ∀ list : List WorkUnit, (∀ unit ∈ list, unit.Declared) →
        (∀ unit ∈ list, unit.Placeable grid) →
          (ReportsDuplicate (blueprint grid settings placement list) ↔
            (∀ unit ∈ list,
              ∃ placed, instantiate grid settings placement 0 unit = .ok placed) ∧
              ¬ list.Pairwise fun left right => ¬ Contend grid settings placement left right) := by
    intro list listDeclared listPlaceable
    rw [reportsDuplicate_iff listDeclared listPlaceable, ← exists_instantiateAll_iff,
      ← exists_and_right]
    exact exists_congr fun items => and_congr_right fun itemsOk =>
      exists_computedTwice_iff itemsOk
  have peaceful_symm :
      ∀ {left right : WorkUnit}, ¬ Contend grid settings placement left right →
        ¬ Contend grid settings placement right left :=
    fun peaceful contend => peaceful contend.symm
  rw [decided units declared placeable,
    decided other (fun unit member => declared unit (perm.mem_iff.mpr member))
      (fun unit member => placeable unit (perm.mem_iff.mpr member)),
    perm.pairwise_iff peaceful_symm]
  simp only [perm.mem_iff]

/-- A value with two producers is reported exactly when two units at different
positions compute it, whatever the order of the units, and the report names the
value and two units that compute it. All items are there to tell, unless the
numbers of output groups overflow. -/
theorem blueprint_reports_duplicates
    (declared : ∀ unit ∈ units, unit.Declared)
    (placeable : ∀ unit ∈ units, unit.Placeable grid) :
    (ReportsDuplicate (blueprint grid settings placement units) ↔
      ∃ items, instantiateAll grid settings placement units = .ok items ∧
        ∃ key left right, ComputedTwice units items key left right) ∧
    (∀ other, units.Perm other →
      (ReportsDuplicate (blueprint grid settings placement units) ↔
        ReportsDuplicate (blueprint grid settings placement other))) ∧
    (∀ label region material first second,
      blueprint grid settings placement units =
          .error (.duplicateProducer label region material first second) →
        ∃ items, instantiateAll grid settings placement units = .ok items ∧
          ∃ key left right, ComputedTwice units items key left right ∧
            key.label.name = label ∧ key.region = region ∧ key.material = material ∧
              left.name = first ∧ right.name = second) ∧
    ((∃ items, instantiateAll grid settings placement units = .ok items) ∨
      (∃ unit ∈ units, unit.policy = .outputOnce) ∧
        ∃ fault, checkOutputGroups settings placement = .error fault ∧
          blueprint grid settings placement units = .error (.arithmetic fault)) := by
  refine ⟨reportsDuplicate_iff declared placeable, ?_, ?_, ?_⟩
  · intro other perm
    exact reportsDuplicate_iff_of_perm declared placeable perm
  · intro label region material first second failed
    obtain ⟨items, itemsOk⟩ :=
      exists_items_of_reportsDuplicate placeable ⟨label, region, material, first, second, failed⟩
    exact ⟨items, itemsOk, computedTwice_of_blueprint declared itemsOk failed⟩
  · cases outcome : instantiateAll grid settings placement units with
    | ok items => exact Or.inl ⟨items, rfl⟩
    | error error =>
        obtain ⟨outputs, fault, overflow, rfl⟩ := instantiateAll_eq_error placeable outcome
        refine Or.inr ⟨outputs, fault, overflow, ?_⟩
        rw [blueprint, outcome]
        rfl

end Order

namespace Row

/-- The density of the right cube is computed twice. -/
def overlapping : List WorkUnit := [
  (unit "advance" [⟨0⟩, ⟨1⟩]).computing (.of density),
  (unit "drain" [⟨0⟩]).modifying (.of density),
  (unit "refill" [⟨1⟩]).computing (.of density)]

end Row

theorem blueprint_reports_duplicates_row :
    (∀ unit ∈ Row.overlapping, unit.Declared) ∧
      (∀ unit ∈ Row.overlapping, unit.Placeable Row.grid) ∧
        blueprint Row.grid .standard Row.compiler.placement Row.overlapping =
            .error (.duplicateProducer "density" (some ⟨1⟩) (some ⟨0⟩) "advance" "refill") ∧
          (∃ items,
            instantiateAll Row.grid .standard Row.compiler.placement Row.overlapping = .ok items ∧
              ∃ key left right, ComputedTwice Row.overlapping items key left right) ∧
            ReportsDuplicate
              (blueprint Row.grid .standard Row.compiler.placement Row.overlapping.reverse) := by
  have ofRow :
      ∀ name regions, (Row.unit name regions).Declared := fun name _ =>
    ((WorkUnit.Declared.named name .perRegion).onRegions _).withMaterials _
  have declared : ∀ unit ∈ Row.overlapping, unit.Declared := by
    simp only [Row.overlapping, List.forall_mem_cons]
    exact ⟨(ofRow _ _).computing _, (ofRow _ _).modifying _, (ofRow _ _).computing _, nofun⟩
  have placeable : ∀ unit ∈ Row.overlapping, unit.Placeable Row.grid := by
    simp only [Row.overlapping, List.forall_mem_cons]
    exact ⟨⟨rfl, by decide⟩, ⟨rfl, by decide⟩, ⟨rfl, by decide⟩, nofun⟩
  have failed :
      blueprint Row.grid .standard Row.compiler.placement Row.overlapping =
        .error (.duplicateProducer "density" (some ⟨1⟩) (some ⟨0⟩) "advance" "refill") := rfl
  have reported : ReportsDuplicate
      (blueprint Row.grid .standard Row.compiler.placement Row.overlapping) :=
    ⟨_, _, _, _, _, failed⟩
  obtain ⟨exactly, anyOrder, _⟩ := blueprint_reports_duplicates declared placeable
  exact ⟨declared, placeable, failed, exactly.mp reported,
    (anyOrder _ (List.reverse_perm _).symm).mp reported⟩

end MeshTasks
