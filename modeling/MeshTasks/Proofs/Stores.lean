import MeshTasks.Proofs.FirstExecution
import MeshTasks.Proofs.Schedule.Exchange

/-!
# Physical stores

Compiling asks of a store map only which bindings lead to the store of new
values. A map can therefore be exchanged for its canonical one, which knows one
store for these bindings and another for all the rest. Every stage passes this
exchange on: the schedule, the items, the recordings and the edges stay what
they are, and the sorted units change in their maps alone. Two maps that agree
on the new-like bindings have one canonical map, and so they compile alike.
-/

namespace MeshTasks

namespace StoreMap

/-- The map with the same new-like bindings that knows two stores only. -/
def canonical (map : StoreMap) : StoreMap :=
  let store (binding : Binding) : StoreIndex := if map.isNewLike binding then ⟨1⟩ else ⟨0⟩
  { old := store .old
    new := store .new
    coarseOld := store .coarseOld
    coarseNew := store .coarseNew
    parentOld := store .parentOld
    parentNew := store .parentNew }

/-- Two maps lead the same bindings to the store of new values. -/
def Agrees (left right : StoreMap) : Prop :=
  ∀ binding, left.get binding = left.get .new ↔ right.get binding = right.get .new

theorem get_canonical (map : StoreMap) (binding : Binding) :
    map.canonical.get binding = if map.isNewLike binding then ⟨1⟩ else ⟨0⟩ := by
  cases binding <;> rfl

@[simp]
theorem isNewLike_canonical (map : StoreMap) (binding : Binding) :
    map.canonical.isNewLike binding = map.isNewLike binding := by
  have newLike : map.isNewLike .new = true := decide_eq_true rfl
  have new : map.canonical.new = ⟨1⟩ := by
    have stored := map.get_canonical .new
    rw [newLike] at stored
    exact stored
  rw [isNewLike, new, get_canonical]
  cases map.isNewLike binding <;> rfl

private theorem Agrees.isNewLike_eq
    {left right : StoreMap}
    (agrees : left.Agrees right)
    (binding : Binding) :
    left.isNewLike binding = right.isNewLike binding :=
  decide_eq_decide.mpr (agrees binding)

private theorem Agrees.canonical_eq
    {left right : StoreMap}
    (agrees : left.Agrees right) :
    left.canonical = right.canonical := by
  simp [canonical, agrees.isNewLike_eq]

/-- Pointing the coarse new values at the store of new values keeps maps in
agreement. -/
private theorem Agrees.set_coarseNew
    {left right : StoreMap}
    (agrees : left.Agrees right) :
    (left.set .coarseNew left.new).Agrees (right.set .coarseNew right.new) := by
  intro binding
  simp only [get_set]
  by_cases isCoarseNew : binding = .coarseNew
  · simp [isCoarseNew, get]
  · simpa [isCoarseNew] using agrees binding

end StoreMap

namespace WorkUnit

/-- The unit with the canonical map in place of its own. -/
def canonical (unit : WorkUnit) : WorkUnit :=
  { unit with stores := unit.stores.canonical }

/-- Two units that are the same but for their maps. -/
def SameButStores (left right : WorkUnit) : Prop :=
  left = { right with stores := left.stores }

private theorem sameButStores_of_canonical_eq
    {left right : WorkUnit}
    (same : left.canonical = right.canonical) :
    left.SameButStores right := by
  cases left
  cases right
  simp_all [SameButStores, canonical]

@[simp]
theorem isNewLike_canonical (unit : WorkUnit) (binding : Binding) :
    unit.canonical.isNewLike binding = unit.isNewLike binding :=
  unit.stores.isNewLike_canonical binding

private theorem neededLabels_canonical (unit : WorkUnit) :
    unit.canonical.neededLabels = unit.neededLabels := by
  simp only [neededLabels, isNewLike_canonical]
  rfl

private theorem keepsNeeds_canonical : KeepsNeeds canonical where
  name_eq _ := rfl
  policy_eq _ := rfl
  computes_eq _ := rfl
  neededLabels_eq := neededLabels_canonical

/-- Giving a unit one of two maps that agree comes to the same canonical
unit. -/
private theorem canonical_rebind_eq
    {left right : StoreMap}
    (agrees : left.Agrees right)
    (grid : Grid) (coarsest : Option Nat) (unit : WorkUnit) :
    (unit.rebind grid coarsest left).canonical = (unit.rebind grid coarsest right).canonical := by
  unfold rebind canonical
  cases unit.isFinerThan grid coarsest with
  | false => simp [agrees.canonical_eq]
  | true => simp [agrees.set_coarseNew.canonical_eq]

end WorkUnit

private theorem map_canonical_rebind_eq
    {left right : StoreMap}
    (agrees : left.Agrees right)
    (grid : Grid) (intermediate : Bool) (units : List WorkUnit) :
    (rebind grid intermediate units left).map WorkUnit.canonical =
      (rebind grid intermediate units right).map WorkUnit.canonical := by
  simp [rebind, WorkUnit.canonical_rebind_eq agrees]

/-! ## The schedule -/

section Schedule

variable (units : List WorkUnit)

theorem seatUnits_canonical (order : List Nat) :
    seatUnits (units.map .canonical) order = (seatUnits units order).map .canonical := by
  unfold seatUnits
  rw [List.map_filterMap]
  congr 1
  funext ⟨position, seat⟩
  simp only [List.getElem?_map, WorkUnit.keepsNeeds_canonical.phaseOf?_map]
  cases units[position]? <;> rfl

theorem sortUnits_canonical :
    sortUnits (units.map .canonical) = (sortUnits units).map (List.map .canonical) := by
  unfold sortUnits
  rw [WorkUnit.keepsNeeds_canonical.schedule_map]
  cases schedule units with
  | error error => rfl
  | ok order => exact congrArg Except.ok (seatUnits_canonical units order)

end Schedule

/-! ## Items and recordings -/

section Items

variable (grid : Grid) (settings : Settings) (placement : Placement) (units : List WorkUnit)

theorem unitAt_canonical (unit : Option Nat) :
    unit.bind (fun position => (units.map WorkUnit.canonical)[position]?) =
      (unit.bind fun position => units[position]?).map .canonical := by
  cases unit with
  | none => rfl
  | some position => exact List.getElem?_map

theorem instantiateAll_canonical :
    instantiateAll grid settings placement (units.map .canonical) =
      instantiateAll grid settings placement units := by
  unfold instantiateAll
  rw [List.zipIdx_map, List.mapM_map]
  rfl

theorem recordAll_canonical (graph : TaskGraph) :
    recordAll (units.map .canonical) graph = recordAll units graph := by
  have sameProductions :
      productions (units.map .canonical) graph = productions units graph := by
    unfold productions
    congr 1
    funext id
    cases graph.item? id with
    | none => rfl
    | some item =>
        simp only [unitAt_canonical]
        cases item.unit?.bind (units[·]?) <;> rfl
  rw [recordAll, sameProductions, recordAll]

theorem blueprint_canonical :
    blueprint grid settings placement (units.map .canonical) =
      blueprint grid settings placement units := by
  simp only [blueprint, instantiateAll_canonical, recordAll_canonical]

end Items

/-! ## Resolution -/

def Request.canonical (request : Request) : Request :=
  { request with unit := request.unit.canonical }

namespace Resolver

/-- The resolver that knows canonical units. -/
def canonical (resolver : Resolver) : Resolver :=
  { resolver with units := resolver.units.map .canonical }

variable (resolver : Resolver) (state : Resolution)

theorem isPerRegion_canonical : resolver.canonical.isPerRegion = resolver.isPerRegion := by
  funext item
  simp only [isPerRegion, canonical, unitAt_canonical]
  cases item.unit?.bind (resolver.units[·]?) <;> rfl

theorem orderAfter_canonical (request : Request) :
    resolver.canonical.orderAfter request.canonical = resolver.orderAfter request := by
  funext state reader
  simp only [orderAfter, isPerRegion_canonical]
  rfl

theorem follow_canonical (request : Request) :
    resolver.canonical.follow request.canonical = resolver.follow request := by
  funext state producer
  simp only [follow, orderAfterReaders, orderAfter_canonical]
  rfl

theorem serve_canonical (request : Request) :
    resolver.canonical.serve state request.canonical = resolver.serve state request := by
  have sameNewLike : request.canonical.isNewLike = request.isNewLike :=
    request.unit.isNewLike_canonical _
  simp only [serve, serveNew, sameNewLike, follow_canonical]
  rfl

theorem resolveAccess_canonical
    (id : Nat) (item : WorkItem) (unit : WorkUnit) (access : Access) :
    resolver.canonical.resolveAccess id item unit.canonical state access =
      resolver.resolveAccess id item unit state access := by
  have sameTargets :
      targets resolver.grid item unit.canonical access = targets resolver.grid item unit access :=
    rfl
  have sameRequests :
      ∀ found, requests id item unit.canonical access found =
        (requests id item unit access found).map Request.canonical := by
    intro found
    simp only [requests, List.map_flatMap, List.map_map]
    rfl
  have sameGrid : resolver.canonical.grid = resolver.grid := rfl
  simp only [resolveAccess, sameGrid, sameTargets, sameRequests, List.foldlM_map, serve_canonical]

theorem resolveItem_canonical (graph : TaskGraph) :
    resolver.canonical.resolveItem graph = resolver.resolveItem graph := by
  funext state id
  unfold resolveItem
  cases graph.item? id with
  | none => rfl
  | some item =>
      simp only [canonical, unitAt_canonical]
      cases item.unit?.bind (resolver.units[·]?) with
      | none => rfl
      | some unit =>
          show
            unit.consumed.foldlM (resolver.canonical.resolveAccess id item unit.canonical) state =
              unit.consumed.foldlM (resolver.resolveAccess id item unit) state
          congr 1
          funext state access
          exact resolver.resolveAccess_canonical state id item unit access

theorem resolve_canonical (graph : TaskGraph) :
    resolver.canonical.resolve graph = resolver.resolve graph := by
  rw [resolve, resolveItem_canonical, resolve]

end Resolver

/-! ## Compilation -/

/-- The compiled graph with the canonical maps on its units. -/
def Compiled.canonical (compiled : Compiled) : Compiled :=
  { compiled with units := compiled.units.map .canonical }

namespace Compiler

variable (compiler : Compiler) (units : List WorkUnit)

private theorem link_canonical :
    compiler.link (units.map .canonical) = (compiler.link units).map .canonical := by
  unfold link
  rw [blueprint_canonical]
  cases blueprint compiler.grid compiler.settings compiler.placement units with
  | error error => rfl
  | ok built =>
      have same :=
        Resolver.resolve_canonical
          ⟨compiler.grid, compiler.placement, compiler.settings, units, built.index⟩ built.graph
      simp only [Resolver.canonical] at same
      simp only [bind, Except.bind, same]
      cases Resolver.resolve _ _ <;> rfl

/-- Canonical maps change nothing about a compilation but the maps
themselves. -/
theorem compile_canonical :
    compiler.compile (units.map .canonical) = (compiler.compile units).map .canonical := by
  unfold compile
  rw [WorkUnit.keepsNeeds_canonical.validate_map fun _ => rfl, sortUnits_canonical]
  cases compiler.settings.check with
  | error error => rfl
  | ok checked =>
      cases validate compiler.grid units with
      | error error => rfl
      | ok valid =>
          cases sortUnits units with
          | error error => rfl
          | ok sorted => exact compiler.link_canonical sorted

/-- Compilations of units that share their canonical units are alike. -/
theorem compile_alike_of_canonical_eq
    {left right : List WorkUnit}
    (same : left.map WorkUnit.canonical = right.map .canonical) :
    Alike Eq (fun first second : Compiled => first.canonical = second.canonical)
      (compiler.compile left) (compiler.compile right) := by
  have outcomes := compiler.compile_canonical right
  rw [← same, compile_canonical] at outcomes
  cases leftOutcome : compiler.compile left <;> cases rightOutcome : compiler.compile right <;>
    rw [leftOutcome, rightOutcome] at outcomes <;>
    simp only [Except.map, reduceCtorEq, Except.error.injEq, Except.ok.injEq] at outcomes
  · exact .error outcomes
  · exact .ok outcomes

/-- Store maps that agree on what is new come to the same error, or to the same
graph for units that differ in their maps alone. -/
theorem compileWith_agrees
    {left right : StoreMap}
    (agrees : left.Agrees right) :
    (∃ error, compiler.compileWith units left = .error error ∧
        compiler.compileWith units right = .error error) ∨
      ∃ first second, compiler.compileWith units left = .ok first ∧
        compiler.compileWith units right = .ok second ∧ first.graph = second.graph ∧
          first.warnings = second.warnings ∧
            List.Forall₂ WorkUnit.SameButStores first.units second.units := by
  have alike := compiler.compile_alike_of_canonical_eq
    (map_canonical_rebind_eq agrees compiler.grid compiler.settings.intermediate units)
  rcases (alike_iff _ _ _ _).mp alike with
    ⟨error, _, rfl, leftError, rightError⟩ | ⟨first, second, same, leftOk, rightOk⟩
  · exact Or.inl ⟨error, leftError, rightError⟩
  · obtain ⟨sameUnits, sameGraph, sameWarnings⟩ := Compiled.mk.inj same
    have paired :
        List.Forall₂ Eq (first.units.map WorkUnit.canonical)
          (second.units.map WorkUnit.canonical) := by
      rw [List.forall₂_eq_eq_eq]
      exact sameUnits
    rw [List.forall₂_map_left_iff, List.forall₂_map_right_iff] at paired
    exact Or.inr ⟨first, second, leftOk, rightOk, sameGraph, sameWarnings,
      paired.imp fun _ _ => WorkUnit.sameButStores_of_canonical_eq⟩

end Compiler

/-! ## Two levels -/

namespace Stack

/-- A cube of cells and, within it, the same cube in cells of half the width. -/
def grid : Grid where
  levels := [
    { index := 0, ratio := .one, periodic := .none
      regions := [⟨⟨0⟩, 0, ⟨.zero, .splat Row.four⟩⟩]
      domain := ⟨.zero, .splat Row.four⟩
      widest := Row.four
      coherent := by constructor <;> decide },
    { index := 1, ratio := .splat ⟨2, by decide, by decide⟩, periodic := .none
      regions := [⟨⟨1⟩, 1, ⟨.zero, .splat Row.eight⟩⟩]
      domain := ⟨.zero, .splat Row.eight⟩
      widest := Row.eight
      coherent := by constructor <;> decide }]
  distinct := by decide

/-- The compiler of one process for steps of the finer level within a step of
the coarser one. -/
def compiler : Compiler where
  grid := grid
  placement := ⟨⟨0⟩, 1, [(⟨0⟩, ⟨0⟩), (⟨1⟩, ⟨0⟩)], .ofList [⟨0⟩, ⟨1⟩]⟩
  settings := { Settings.standard with intermediate := true }

/-- The finer level reads the new coarse density. -/
def advanceThenRefine : List WorkUnit := [
  (Row.unit "advance" [⟨0⟩]).computing (.of Row.density),
  (Row.unit "refine" [⟨1⟩]).requiring
    { Access.of Row.density with binding := .coarseNew, domain := .coarserLevel 1 }]

/-- Two maps that send new coarse values to a store of their own. -/
def narrowMap : StoreMap := ⟨⟨0⟩, ⟨1⟩, ⟨0⟩, ⟨2⟩, ⟨0⟩, ⟨1⟩⟩

def wideMap : StoreMap := ⟨⟨5⟩, ⟨9⟩, ⟨6⟩, ⟨4⟩, ⟨7⟩, ⟨9⟩⟩

end Stack

theorem compileWith_agrees_stack :
    Stack.narrowMap.Agrees Stack.wideMap ∧
      ∃ first second,
        Stack.compiler.compileWith Stack.advanceThenRefine Stack.narrowMap = .ok first ∧
          Stack.compiler.compileWith Stack.advanceThenRefine Stack.wideMap = .ok second ∧
            first.graph = second.graph ∧ first.graph.edges.map Edge.producer = [0] ∧
              first.units ≠ second.units := by
  have agrees : Stack.narrowMap.Agrees Stack.wideMap := by
    intro binding
    cases binding <;> decide
  refine ⟨agrees, ?_⟩
  rcases Stack.compiler.compileWith_agrees Stack.advanceThenRefine agrees with
    ⟨error, failed, _⟩ | ⟨first, second, firstOk, secondOk, sameGraph, _, _⟩
  · cases failed
  · refine ⟨first, second, firstOk, secondOk, sameGraph, ?_, ?_⟩
    · cases firstOk
      rfl
    · cases firstOk
      cases secondOk
      decide

end MeshTasks
