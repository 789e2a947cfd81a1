import MeshTasks.Proofs.Items.Placed

/-!
# Blueprints

A blueprint holds the items of its units and no edges, and its index lists the
recordings of these items. A recording tells which access of which item it was
made by.
-/

namespace MeshTasks

/-- The graph of some items before anything is resolved. -/
def TaskGraph.ofItems (items : List WorkItem) : TaskGraph := ⟨items, []⟩

theorem TaskGraph.item?_lt
    {graph : TaskGraph} {id : Nat} {item : WorkItem}
    (itemAt : graph.item? id = some item) :
    id < graph.items.length :=
  (List.getElem?_eq_some_iff.mp itemAt).1

theorem TaskGraph.mem_itemsWhere {graph : TaskGraph} {test : WorkItem → Bool} {id : Nat} :
    id ∈ graph.itemsWhere test ↔ ∃ item, graph.item? id = some item ∧ test item = true := by
  unfold itemsWhere item?
  rw [List.mem_filter, List.mem_range]
  cases itemAt : graph.items[id]? with
  | none => simp
  | some item =>
      have bound := (List.getElem?_eq_some_iff.mp itemAt).1
      simp [bound]

theorem TaskGraph.mem_unitItems {graph : TaskGraph} {id : Nat} :
    id ∈ graph.unitItems ↔ ∃ item, graph.item? id = some item ∧ item.isSend = false := by
  unfold unitItems
  rw [mem_itemsWhere]
  simp only [Bool.not_eq_true']

theorem TaskGraph.pairwise_itemsWhere (graph : TaskGraph) (test : WorkItem → Bool) :
    (graph.itemsWhere test).Pairwise (· < ·) :=
  List.Pairwise.filter _ List.pairwise_lt_range

/-- An access of an item by which a recording is made. -/
structure Recording.MadeBy (units : List WorkUnit) (graph : TaskGraph) (recording : Recording)
    (item : WorkItem) (unit : WorkUnit) (access : Access) : Prop where
  item_at : graph.item? recording.entry.item = some item
  unit_of : item.unit?.bind (units[·]?) = some unit
  produced : access ∈ unit.produced
  takes_part : takesPart unit item access = true
  key_mem : recording.key ∈ producedKeys access item
  order_eq : recording.entry.order = item.order
  mode_eq : recording.entry.mode = access.mode

private theorem mem_productions
    {units : List WorkUnit} {graph : TaskGraph} {id : Nat} {access : Access} :
    (id, access) ∈ productions units graph ↔
      ∃ item unit, graph.item? id = some item ∧ item.unit?.bind (units[·]?) = some unit ∧
        access ∈ unit.produced ∧ takesPart unit item access = true := by
  unfold productions
  rw [List.mem_flatMap]
  constructor
  · rintro ⟨other, _, ofItem⟩
    cases itemAt : graph.item? other with
    | none =>
        rw [itemAt] at ofItem
        cases ofItem
    | some item =>
        rw [itemAt] at ofItem
        dsimp only at ofItem
        cases unitOf : item.unit?.bind (units[·]?) with
        | none =>
            rw [unitOf] at ofItem
            cases ofItem
        | some unit =>
            rw [unitOf] at ofItem
            obtain ⟨produced, member, same⟩ := List.mem_map.mp ofItem
            cases same
            obtain ⟨inProduced, takes⟩ := List.mem_filter.mp member
            exact ⟨item, unit, itemAt, unitOf, inProduced, takes⟩
  · rintro ⟨item, unit, itemAt, unitOf, inProduced, takes⟩
    refine ⟨id, TaskGraph.mem_unitItems.mpr ⟨item, itemAt, ?_⟩, ?_⟩
    · obtain ⟨position, fromUnit, _⟩ := Option.bind_eq_some_iff.mp unitOf
      exact WorkItem.isSend_eq_false_of_unit? fromUnit
    · rw [itemAt]
      dsimp only
      rw [unitOf]
      exact List.mem_map.mpr ⟨access, List.mem_filter.mpr ⟨inProduced, takes⟩, rfl⟩

theorem mem_allRecordings
    {units : List WorkUnit} {graph : TaskGraph} {recording : Recording} :
    recording ∈ allRecordings units graph ↔
      ∃ item unit access, recording.MadeBy units graph item unit access := by
  unfold allRecordings
  rw [List.mem_flatMap]
  constructor
  · rintro ⟨⟨id, access⟩, production, ofProduction⟩
    obtain ⟨item, unit, itemAt, unitOf, inProduced, takes⟩ := mem_productions.mp production
    unfold recordingsOf at ofProduction
    rw [itemAt] at ofProduction
    obtain ⟨key, keyMember, rfl⟩ := List.mem_map.mp ofProduction
    exact ⟨item, unit, access, itemAt, unitOf, inProduced, takes, keyMember, rfl, rfl⟩
  · rintro ⟨item, unit, access, made⟩
    refine ⟨(recording.entry.item, access),
      mem_productions.mpr ⟨item, unit, made.item_at, made.unit_of, made.produced,
        made.takes_part⟩, ?_⟩
    unfold recordingsOf
    rw [made.item_at]
    refine List.mem_map.mpr ⟨recording.key, made.key_mem, ?_⟩
    rw [← made.order_eq, ← made.mode_eq]

/-- What a blueprint is to its units. -/
theorem blueprint_eq_ok_iff
    {grid : Grid} {settings : Settings} {placement : Placement} {units : List WorkUnit}
    {built : Blueprint} :
    blueprint grid settings placement units = .ok built ↔
      ∃ items, instantiateAll grid settings placement units = .ok items ∧
        built = ⟨.ofItems items, ⟨allRecordings units (.ofItems items)⟩⟩ ∧
          (allRecordings units (.ofItems items)).Pairwise
            (Recording.Agrees (.ofItems items)) := by
  unfold blueprint
  rw [bind_eq_ok_iff]
  refine exists_congr fun items => and_congr_right fun _ => ?_
  dsimp only
  have sameGraph : (⟨items, []⟩ : TaskGraph) = .ofItems items := rfl
  rw [sameGraph]
  cases recorded : recordAll units (.ofItems items) with
  | error halted =>
      refine ⟨nofun, fun built => ?_⟩
      have impossible := recordAll_eq_ok_iff.mpr ⟨rfl, built.2⟩
      rw [recorded] at impossible
      cases impossible
  | ok index =>
      obtain ⟨rfl, agreed⟩ := recordAll_eq_ok_iff.mp recorded
      constructor
      · intro same
        cases same
        exact ⟨rfl, agreed⟩
      · rintro ⟨rfl, _⟩
        rfl

/-- Once all units are placed, a blueprint fails only by the report of a
clash. -/
theorem exists_clash_of_blueprint
    {grid : Grid} {settings : Settings} {placement : Placement} {units : List WorkUnit}
    {items : List WorkItem} {error : Error}
    (itemsOk : instantiateAll grid settings placement units = .ok items)
    (failed : blueprint grid settings placement units = .error error) :
    ∃ earlier ∈ allRecordings units (.ofItems items),
      ∃ later ∈ allRecordings units (.ofItems items),
        ¬ earlier.Agrees (.ofItems items) later ∧
          error = earlier.report (.ofItems items) later := by
  rw [blueprint, itemsOk] at failed
  have recordFailed : ∃ halted, recordAll units (.ofItems items) = .error halted ∧
      halted.error = error := by
    dsimp only [bind, Except.bind] at failed
    split at failed
    · rename_i halted halts
      cases failed
      exact ⟨halted, halts, rfl⟩
    · cases failed
  obtain ⟨halted, halts, rfl⟩ := recordFailed
  exact exists_clash_of_recordAll halts

/-- A unit never clashes with itself: whenever it can be instantiated, it has a
blueprint alone. -/
theorem exists_blueprint_singleton
    {grid : Grid} {settings : Settings} {placement : Placement} {unit : WorkUnit}
    {items : List WorkItem}
    (itemsOk : instantiate grid settings placement 0 unit = .ok items) :
    ∃ built, blueprint grid settings placement [unit] = .ok built := by
  have allOk : instantiateAll grid settings placement [unit] = .ok items := by
    have mapped :
        List.Forall₂
          (fun pair placed => instantiate grid settings placement pair.2 pair.1 = .ok placed)
          [(unit, 0)] [items] :=
      .cons itemsOk .nil
    refine bind_eq_ok_iff.mpr ⟨[items], mapM_eq_ok_iff.mpr mapped, ?_⟩
    rw [List.flatten_singleton]
    rfl
  have ofUnit :
      ∀ recording ∈ allRecordings [unit] (.ofItems items),
        recording.unit? (.ofItems items) = some 0 := by
    intro recording member
    obtain ⟨item, _, _, made⟩ := mem_allRecordings.mp member
    obtain ⟨position, _, placed, unitAt, placedOk, inPlaced⟩ :=
      exists_unit_of_mem_items allOk (List.mem_of_getElem? made.item_at)
    obtain ⟨_, _, _, rfl, _⟩ := mem_instantiate placedOk inPlaced
    obtain ⟨bound, _⟩ := List.getElem?_eq_some_iff.mp unitAt
    rw [Recording.unit?, made.item_at, Option.bind_some]
    exact congrArg some (Nat.lt_one_iff.mp bound)
  refine ⟨_, blueprint_eq_ok_iff.mpr ⟨items, allOk, rfl, ?_⟩⟩
  refine List.pairwise_of_forall_mem_list fun earlier earlierMember later laterMember => ?_
  intro _ _ _ _
  rw [ofUnit earlier earlierMember, ofUnit later laterMember]

end MeshTasks
