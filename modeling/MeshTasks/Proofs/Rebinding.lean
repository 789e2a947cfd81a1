import MeshTasks.Proofs.Stores

/-!
# Rebinding again and again

The stores that a unit is given depend on its own level, on the coarsest active
level and on the new map. None of these depends on the stores that units have,
nor on the order in which units stand. So only the last of several maps counts,
and a graph that is compiled for a map needs no change for it.
-/

namespace MeshTasks

namespace WorkUnit

variable (grid : Grid) (coarsest : Option Nat)

theorem rebind_rebind (first second : StoreMap) (unit : WorkUnit) :
    (unit.rebind grid coarsest first).rebind grid coarsest second =
      unit.rebind grid coarsest second :=
  rfl

theorem sameButStores_rebind (map : StoreMap) (unit : WorkUnit) :
    (unit.rebind grid coarsest map).SameButStores unit :=
  rfl

theorem rebind_eq_self_iff {map : StoreMap} {unit : WorkUnit} :
    unit.rebind grid coarsest map = unit ↔
      (unit.rebind grid coarsest map).stores = unit.stores := by
  refine ⟨congrArg stores, fun same => ?_⟩
  rw [sameButStores_rebind grid coarsest map unit, same]

/-- Seat and phase do not matter to the stores that a unit is given. -/
theorem rebind_seated (map : StoreMap) (unit : WorkUnit) (seat phase : Option Nat) :
    { unit with seat := seat, phase := phase }.rebind grid coarsest map =
      { unit.rebind grid coarsest map with seat := seat, phase := phase } :=
  rfl

end WorkUnit

section

variable (grid : Grid) (intermediate : Bool)

/-- The level below which units read new coarse values from the store that they
write. -/
def overridingLevel? (units : List WorkUnit) : Option Nat :=
  if intermediate then coarsestActiveLevel? grid units else none

variable {units : List WorkUnit} {map : StoreMap}

private theorem rebind_eq (units : List WorkUnit) (map : StoreMap) :
    rebind grid intermediate units map =
      units.map (WorkUnit.rebind grid (overridingLevel? grid intermediate units) map) :=
  rfl

theorem coarsestActiveLevel?_of_perm
    {left right : List WorkUnit}
    (permutation :
      (left.map (WorkUnit.activeLevel? grid)).Perm (right.map (WorkUnit.activeLevel? grid))) :
    coarsestActiveLevel? grid left = coarsestActiveLevel? grid right := by
  have levels :
      (left.filterMap (WorkUnit.activeLevel? grid)).Perm
        (right.filterMap (WorkUnit.activeLevel? grid)) := by
    simpa only [List.filterMap_map, Function.id_comp] using permutation.filterMap id
  apply Option.ext
  intro least
  simp only [coarsestActiveLevel?, List.min?_eq_some_iff, levels.mem_iff]

theorem overridingLevel?_of_perm
    {left right : List WorkUnit}
    (permutation :
      (left.map (WorkUnit.activeLevel? grid)).Perm (right.map (WorkUnit.activeLevel? grid))) :
    overridingLevel? grid intermediate left = overridingLevel? grid intermediate right := by
  simp only [overridingLevel?, coarsestActiveLevel?_of_perm grid permutation]

private theorem overridingLevel?_rebind (units : List WorkUnit) (map : StoreMap) :
    overridingLevel? grid intermediate (rebind grid intermediate units map) =
      overridingLevel? grid intermediate units := by
  apply overridingLevel?_of_perm
  rw [rebind_eq, List.map_map]
  rfl

/-- Of two maps in turn only the second counts. -/
theorem rebind_rebind (units : List WorkUnit) (first second : StoreMap) :
    rebind grid intermediate (rebind grid intermediate units first) second =
      rebind grid intermediate units second := by
  rw [rebind_eq, overridingLevel?_rebind, rebind_eq, rebind_eq, List.map_map]
  rfl

theorem rebind_foldl (maps : List StoreMap) (units : List WorkUnit) (last : StoreMap) :
    rebind grid intermediate (maps.foldl (rebind grid intermediate) units) last =
      rebind grid intermediate units last := by
  induction maps generalizing units with
  | nil => rfl
  | cons map rest inductionHypothesis =>
      rw [List.foldl_cons, inductionHypothesis, rebind_rebind]

theorem sameButStores_rebind (units : List WorkUnit) (map : StoreMap) :
    List.Forall₂ WorkUnit.SameButStores (rebind grid intermediate units map) units := by
  rw [rebind_eq, List.forall₂_map_left_iff, List.forall₂_same]
  exact fun unit _ => unit.sameButStores_rebind grid _ map

private theorem getElem?_rebind (units : List WorkUnit) (map : StoreMap) (position : Nat) :
    (rebind grid intermediate units map)[position]? =
      units[position]?.map
        (WorkUnit.rebind grid (overridingLevel? grid intermediate units) map) := by
  rw [rebind_eq, List.getElem?_map]

theorem rebindChanges_iff :
    rebindChanges grid intermediate units map = true ↔
      ∃ (position : Nat) (before after : WorkUnit), units[position]? = some before ∧
        (rebind grid intermediate units map)[position]? = some after ∧
          after.stores ≠ before.stores := by
  simp only [getElem?_rebind, rebindChanges, List.any_eq_true, decide_eq_true_eq]
  constructor
  · rintro ⟨unit, member, changes⟩
    obtain ⟨position, unitAt⟩ := List.mem_iff_getElem?.mp member
    exact ⟨position, unit, _, unitAt, by rw [unitAt]; rfl, changes⟩
  · rintro ⟨position, before, after, beforeAt, afterAt, changes⟩
    rw [beforeAt] at afterAt
    cases afterAt
    exact ⟨before, List.mem_of_getElem? beforeAt, changes⟩

theorem rebind_eq_self_iff :
    rebind grid intermediate units map = units ↔
      ∀ unit ∈ units,
        unit.rebind grid (overridingLevel? grid intermediate units) map = unit := by
  rw [rebind_eq]
  conv_lhs =>
    rhs
    rw [← List.map_id units]
  exact List.map_inj_left

/-- Rebinding that changes no stores changes nothing. -/
theorem rebindChanges_eq_false_iff :
    rebindChanges grid intermediate units map = false ↔
      rebind grid intermediate units map = units := by
  simp only [rebind_eq_self_iff, WorkUnit.rebind_eq_self_iff, rebindChanges, List.any_eq_false,
    decide_eq_true_eq, not_not]
  rfl

/-- Units that were given a map before they were sorted have it afterwards. -/
theorem rebind_of_sortUnits
    {sorted : List WorkUnit}
    (sortedOk : sortUnits (rebind grid intermediate units map) = .ok sorted) :
    rebind grid intermediate sorted map = sorted := by
  have sameLevel :
      overridingLevel? grid intermediate sorted = overridingLevel? grid intermediate units := by
    rw [← overridingLevel?_rebind grid intermediate units map]
    exact overridingLevel?_of_perm grid intermediate
      (perm_map_sortUnits (fun _ _ _ => rfl) sortedOk)
  rw [rebind_eq_self_iff, sameLevel]
  intro unit member
  obtain ⟨seat, unitAt⟩ := List.mem_iff_getElem?.mp member
  obtain ⟨original, originalMember, phase, rfl⟩ := (sortUnits_sorted sortedOk).seated unitAt
  rw [rebind_eq] at originalMember
  obtain ⟨given, _, rfl⟩ := List.mem_map.mp originalMember
  rw [WorkUnit.rebind_seated, WorkUnit.rebind_rebind]

end

/-- Of several maps only the last counts. Each time some unit's stores change
exactly if that is told, and nothing else of any unit changes. Units that were
compiled with a map need no change for it. -/
theorem rebind_history_free
    (grid : Grid) (intermediate : Bool) (units : List WorkUnit) (maps : List StoreMap)
    (map : StoreMap) :
    let reached := maps.foldl (rebind grid intermediate) units
    rebind grid intermediate reached map = rebind grid intermediate units map ∧
      (rebindChanges grid intermediate reached map = true ↔
        ∃ (position : Nat) (before after : WorkUnit), reached[position]? = some before ∧
          (rebind grid intermediate reached map)[position]? = some after ∧
            after.stores ≠ before.stores) ∧
      List.Forall₂ WorkUnit.SameButStores (rebind grid intermediate reached map) units ∧
        ∀ (compiler : Compiler) (compiled : Compiled),
          compiler.compileWith units map = .ok compiled →
            compiler.rebindCompiled compiled map = (compiled, false) := by
  refine ⟨rebind_foldl grid intermediate maps units map, rebindChanges_iff grid intermediate, ?_,
    fun compiler compiled compiledOk => ?_⟩
  · rw [rebind_foldl]
    exact sameButStores_rebind grid intermediate units map
  · obtain ⟨_, _, items, built⟩ := Compiler.compile_eq_ok_iff.mp compiledOk
    have settled :=
      rebind_of_sortUnits compiler.grid compiler.settings.intermediate built.sorted_ok
    have unchanged := (rebindChanges_eq_false_iff _ _).mpr settled
    rw [Compiler.rebindCompiled, settled, unchanged]

/-- The units of both levels change from one map to the other; compiled with a
map, they keep it. -/
theorem rebind_history_free_stack :
    rebindChanges Stack.grid true
        ([Stack.narrowMap, Stack.wideMap].foldl (rebind Stack.grid true) Stack.advanceThenRefine)
        Stack.narrowMap = true ∧
      rebind Stack.grid true
          ([Stack.narrowMap, Stack.wideMap].foldl (rebind Stack.grid true)
            Stack.advanceThenRefine)
          Stack.narrowMap =
        rebind Stack.grid true Stack.advanceThenRefine Stack.narrowMap ∧
      ∃ compiled,
        Stack.compiler.compileWith Stack.advanceThenRefine Stack.narrowMap = .ok compiled ∧
          Stack.compiler.rebindCompiled compiled Stack.narrowMap = (compiled, false) := by
  have free :=
    rebind_history_free Stack.grid true Stack.advanceThenRefine [Stack.narrowMap, Stack.wideMap]
      Stack.narrowMap
  have changes :
      rebindChanges Stack.grid true
        ([Stack.narrowMap, Stack.wideMap].foldl (rebind Stack.grid true) Stack.advanceThenRefine)
        Stack.narrowMap = true := by
    decide
  refine ⟨changes, free.1, ?_⟩
  cases compiledOk : Stack.compiler.compileWith Stack.advanceThenRefine Stack.narrowMap with
  | error error => cases compiledOk
  | ok compiled => exact ⟨compiled, rfl, free.2.2.2 Stack.compiler compiled compiledOk⟩

end MeshTasks
