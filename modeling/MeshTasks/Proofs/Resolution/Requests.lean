import MeshTasks.Proofs.Outcome
import MeshTasks.Resolution

/-!
# The requests of a resolution

A resolution works off one list of requests, item by item, access by access,
target by target and material by material. Whether it succeeds can be read from
the list alone: every access must have targets and every request must be served,
and neither depends on what was resolved before.
-/

namespace MeshTasks

namespace Resolver

/-- A request is served unless it asks for a new value that nothing produces and
that is not a matter between other processes. -/
def Served (resolver : Resolver) (request : Request) : Prop :=
  request.isNewLike = true → resolver.producers request = [] → resolver.isRemote request = true

/-- The state after a request that is served. -/
def advance (resolver : Resolver) (state : Resolution) (request : Request) : Resolution :=
  if request.isNewLike then
    (resolver.producers request).foldl (resolver.follow request) state
  else
    resolver.servePrior state request

theorem serve_eq_ok_iff
    {resolver : Resolver} {state next : Resolution} {request : Request} :
    resolver.serve state request = .ok next ↔
      resolver.Served request ∧ next = resolver.advance state request := by
  unfold serve Served advance serveNew
  by_cases newLike : request.isNewLike = true
  · rw [if_pos newLike, if_pos newLike]
    cases resolver.producers request with
    | nil =>
        by_cases remote : resolver.isRemote request = true
        · rw [if_pos remote, Except.ok.injEq]
          exact ⟨fun same => ⟨fun _ _ => remote, same.symm⟩, fun both => both.2.symm⟩
        · rw [if_neg remote]
          exact ⟨nofun, fun both => absurd (both.1 newLike rfl) remote⟩
    | cons first others =>
        rw [Except.ok.injEq]
        exact ⟨fun same => ⟨nofun, same.symm⟩, fun both => both.2.symm⟩
  · rw [if_neg newLike, if_neg newLike, Except.ok.injEq]
    exact ⟨fun same => ⟨fun isNew => absurd isNew newLike, same.symm⟩, fun both => both.2.symm⟩

/-- The targets of an access, none if they cannot be found. -/
def targetsFound (resolver : Resolver) (item : WorkItem) (unit : WorkUnit) (access : Access) :
    List Target :=
  match targets resolver.grid item unit access with
  | .ok found => found
  | .error _ => []

/-- The requests of the item at a place. -/
def requestsOf (resolver : Resolver) (graph : TaskGraph) (id : Nat) : List Request :=
  match graph.item? id with
  | none => []
  | some item =>
      match item.unit?.bind (resolver.units[·]?) with
      | none => []
      | some unit =>
          unit.consumed.flatMap fun access =>
            requests id item unit access (resolver.targetsFound item unit access)

/-- The requests of all items of units, in the order in which they are worked
off. -/
def agenda (resolver : Resolver) (graph : TaskGraph) : List Request :=
  graph.unitItems.flatMap (resolver.requestsOf graph)

/-- Every access by which the item at a place consumes a value has targets. -/
def HasTargets (resolver : Resolver) (graph : TaskGraph) (id : Nat) : Prop :=
  ∀ item unit, graph.item? id = some item → item.unit?.bind (resolver.units[·]?) = some unit →
    ∀ access ∈ unit.consumed, ∃ found, targets resolver.grid item unit access = .ok found

private theorem resolveAccess_eq_ok_iff
    {resolver : Resolver} {id : Nat} {item : WorkItem} {unit : WorkUnit}
    {state next : Resolution} {access : Access} :
    resolver.resolveAccess id item unit state access = .ok next ↔
      ((∃ found, targets resolver.grid item unit access = .ok found) ∧
        ∀ request ∈ requests id item unit access (resolver.targetsFound item unit access),
          resolver.Served request) ∧
        next =
          (requests id item unit access (resolver.targetsFound item unit access)).foldl
            resolver.advance state := by
  unfold resolveAccess targetsFound
  cases targets resolver.grid item unit access with
  | error error =>
      refine ⟨nofun, fun both => ?_⟩
      obtain ⟨found, impossible⟩ := both.1.1
      cases impossible
  | ok found =>
      dsimp only
      rw [foldlM_eq_ok_iff resolver.serve resolver.Served resolver.advance
        fun _ _ _ => serve_eq_ok_iff]
      refine and_congr_left fun _ => ?_
      exact ⟨fun served => ⟨⟨found, rfl⟩, served⟩, And.right⟩

private theorem resolveItem_eq_ok_iff
    {resolver : Resolver} {graph : TaskGraph} {state next : Resolution} {id : Nat} :
    resolver.resolveItem graph state id = .ok next ↔
      (resolver.HasTargets graph id ∧
        ∀ request ∈ resolver.requestsOf graph id, resolver.Served request) ∧
        next = (resolver.requestsOf graph id).foldl resolver.advance state := by
  unfold resolveItem requestsOf HasTargets
  cases graph.item? id with
  | none =>
      rw [Except.ok.injEq]
      refine ⟨fun same => ⟨⟨?_, fun _ member => absurd member List.not_mem_nil⟩, same.symm⟩,
        fun both => both.2.symm⟩
      intro item unit impossible
      cases impossible
  | some item =>
      dsimp only
      cases unitOf : item.unit?.bind (resolver.units[·]?) with
      | none =>
          rw [Except.ok.injEq]
          refine ⟨fun same => ⟨⟨?_, fun _ member => absurd member List.not_mem_nil⟩, same.symm⟩,
            fun both => both.2.symm⟩
          intro other unit same noUnit
          cases same
          rw [unitOf] at noUnit
          cases noUnit
      | some unit =>
          dsimp only
          rw [foldlM_eq_ok_iff (resolver.resolveAccess id item unit) _ _
            fun _ _ _ => resolveAccess_eq_ok_iff, List.foldl_flatMap]
          refine and_congr_left fun _ => ?_
          constructor
          · intro allowed
            refine ⟨fun other owner sameItem sameUnit access member => ?_, fun request member => ?_⟩
            · cases sameItem
              rw [unitOf] at sameUnit
              cases sameUnit
              exact (allowed access member).1
            · obtain ⟨access, consumed, ofAccess⟩ := List.mem_flatMap.mp member
              exact (allowed access consumed).2 request ofAccess
          · rintro ⟨hasTargets, served⟩ access consumed
            refine ⟨hasTargets item unit rfl unitOf access consumed, fun request member => ?_⟩
            exact served request (List.mem_flatMap.mpr ⟨access, consumed, member⟩)

/-- A resolution succeeds exactly when all accesses have targets and all
requests are served; it then has advanced by all requests. -/
theorem resolve_eq_ok_iff
    {resolver : Resolver} {graph : TaskGraph} {final : Resolution} :
    resolver.resolve graph = .ok final ↔
      ((∀ id ∈ graph.unitItems, resolver.HasTargets graph id) ∧
        ∀ request ∈ resolver.agenda graph, resolver.Served request) ∧
        final = (resolver.agenda graph).foldl resolver.advance (.start graph) := by
  unfold resolve agenda
  rw [foldlM_eq_ok_iff (resolver.resolveItem graph) _ _ fun _ _ _ => resolveItem_eq_ok_iff,
    List.foldl_flatMap]
  refine and_congr_left fun _ => ?_
  constructor
  · intro allowed
    refine ⟨fun id member => (allowed id member).1, fun request member => ?_⟩
    obtain ⟨id, idMember, ofItem⟩ := List.mem_flatMap.mp member
    exact (allowed id idMember).2 request ofItem
  · rintro ⟨hasTargets, served⟩ id member
    refine ⟨hasTargets id member, fun request ofItem => ?_⟩
    exact served request (List.mem_flatMap.mpr ⟨id, member, ofItem⟩)

end Resolver

end MeshTasks
