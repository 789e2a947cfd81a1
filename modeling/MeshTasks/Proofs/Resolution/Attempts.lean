import MeshTasks.Proofs.Resolution.Adds

/-!
# Where a resolution ends

A resolution works off one list of attempts. An access whose targets cannot be
found is an attempt that fails; all other attempts are requests, which may be
served or not. The first attempt that fails ends the resolution, and what it
leaves behind is known from the requests before it.
-/

namespace MeshTasks

/-- The state that a computation ended in, with or without an error. -/
def Halted.finalState {σ : Type} : Except (Halted σ) σ → σ
  | .ok final => final
  | .error halted => halted.state

namespace Resolver

variable {resolver : Resolver} {graph : TaskGraph} {state : Resolution}

/-- What an access of an item asks for, or why its targets cannot be found. -/
def attemptsOf (resolver : Resolver) (id : Nat) (item : WorkItem) (unit : WorkUnit)
    (access : Access) : List (Except Error Request) :=
  match targets resolver.grid item unit access with
  | .error error => [.error error]
  | .ok found => (requests id item unit access found).map .ok

/-- The attempts of the item at a place. -/
def attemptsAt (resolver : Resolver) (graph : TaskGraph) (id : Nat) :
    List (Except Error Request) :=
  match graph.item? id with
  | none => []
  | some item =>
      match item.unit?.bind (resolver.units[·]?) with
      | none => []
      | some unit => unit.consumed.flatMap (resolver.attemptsOf id item unit)

/-- The attempts of all items of units, in the order in which they are made. -/
def attempts (resolver : Resolver) (graph : TaskGraph) : List (Except Error Request) :=
  graph.unitItems.flatMap (resolver.attemptsAt graph)

def attempt (resolver : Resolver) (state : Resolution) :
    Except Error Request → Except (Halted Resolution) Resolution
  | .error error => .error ⟨error, state⟩
  | .ok request => resolver.serve state request

/-- The requests that are served, from a state on, before an attempt fails. -/
def servedFrom (resolver : Resolver) (state : Resolution) :
    List (Except Error Request) → List Request
  | [] => []
  | .error _ :: _ => []
  | .ok request :: rest =>
      match resolver.serve state request with
      | .error _ => []
      | .ok next => request :: servedFrom resolver next rest

/-- The requests that a resolution serves before it ends. -/
def requestsServed (resolver : Resolver) (graph : TaskGraph) : List Request :=
  resolver.servedFrom (.start graph) (resolver.attempts graph)

private theorem resolveAccess_eq
    (resolver : Resolver) (id : Nat) (item : WorkItem) (unit : WorkUnit) (state : Resolution)
    (access : Access) :
    resolver.resolveAccess id item unit state access =
      (resolver.attemptsOf id item unit access).foldlM resolver.attempt state := by
  unfold resolveAccess attemptsOf
  cases targets resolver.grid item unit access with
  | error error => rfl
  | ok found => simp only [List.foldlM_map, attempt]

private theorem resolveItem_eq
    (resolver : Resolver) (graph : TaskGraph) (state : Resolution) (id : Nat) :
    resolver.resolveItem graph state id =
      (resolver.attemptsAt graph id).foldlM resolver.attempt state := by
  unfold resolveItem attemptsAt
  cases graph.item? id with
  | none => rfl
  | some item =>
      dsimp only
      cases item.unit?.bind (resolver.units[·]?) with
      | none => rfl
      | some unit =>
          dsimp only
          rw [foldlM_flatMap]
          simp only [← resolveAccess_eq]

theorem resolve_eq (resolver : Resolver) (graph : TaskGraph) :
    resolver.resolve graph = (resolver.attempts graph).foldlM resolver.attempt (.start graph) := by
  unfold resolve attempts
  rw [foldlM_flatMap]
  simp only [← resolveItem_eq]

theorem mem_attempts
    {attempted : Except Error Request}
    (member : attempted ∈ resolver.attempts graph) :
    ∃ id item unit access, graph.item? id = some item ∧
      item.unit?.bind (resolver.units[·]?) = some unit ∧ access ∈ unit.consumed ∧
        attempted ∈ resolver.attemptsOf id item unit access := by
  obtain ⟨id, _, ofItem⟩ := List.mem_flatMap.mp member
  unfold attemptsAt at ofItem
  cases itemAt : graph.item? id with
  | none => simp [itemAt] at ofItem
  | some item =>
      cases unitOf : item.unit?.bind (resolver.units[·]?) with
      | none => simp [itemAt, unitOf] at ofItem
      | some unit =>
          simp only [itemAt, unitOf, List.mem_flatMap] at ofItem
          obtain ⟨access, consumed, ofAccess⟩ := ofItem
          exact ⟨id, item, unit, access, itemAt, unitOf, consumed, ofAccess⟩

private theorem state_of_serve_error
    {request : Request} {halted : Halted Resolution}
    (failed : resolver.serve state request = .error halted) :
    halted.state = state := by
  unfold serve serveNew at failed
  split at failed
  · split at failed
    · split at failed
      · cases failed
      · cases failed
        rfl
    · cases failed
  · cases failed

/-- A run through some attempts ends in the state after the requests served. -/
private theorem finalState_foldlM_attempt (attempts : List (Except Error Request)) :
    Halted.finalState (attempts.foldlM resolver.attempt state) =
      (resolver.servedFrom state attempts).foldl resolver.advance state := by
  induction attempts generalizing state with
  | nil => rfl
  | cons head tail inductionHypothesis =>
      cases head with
      | error error => rfl
      | ok request =>
          rw [List.foldlM_cons, attempt, servedFrom]
          cases served : resolver.serve state request with
          | error halted => exact state_of_serve_error served
          | ok next =>
              obtain ⟨_, rfl⟩ := serve_eq_ok_iff.mp served
              exact inductionHypothesis

theorem finalState_resolve :
    Halted.finalState (resolver.resolve graph) =
      (resolver.requestsServed graph).foldl resolver.advance (.start graph) := by
  rw [resolve_eq, finalState_foldlM_attempt]
  rfl

/-- The requests served are the first attempts. -/
private theorem isPrefix_servedFrom (attempts : List (Except Error Request)) :
    (resolver.servedFrom state attempts).map .ok <+: attempts := by
  induction attempts generalizing state with
  | nil => exact List.nil_prefix
  | cons head tail inductionHypothesis =>
      cases head with
      | error error => exact List.nil_prefix
      | ok request =>
          rw [servedFrom]
          cases resolver.serve state request with
          | error halted => exact List.nil_prefix
          | ok next => exact (List.prefix_cons_inj _).mpr inductionHypothesis

/-- A run through all attempts has served them all. -/
private theorem map_servedFrom_of_ok
    {attempts : List (Except Error Request)} {final : Resolution}
    (foldOk : attempts.foldlM resolver.attempt state = .ok final) :
    (resolver.servedFrom state attempts).map .ok = attempts := by
  induction attempts generalizing state with
  | nil => rfl
  | cons head tail inductionHypothesis =>
      obtain ⟨next, attemptOk, restOk⟩ := bind_eq_ok_iff.mp foldOk
      cases head with
      | error error => cases attemptOk
      | ok request =>
          have served : resolver.serve state request = .ok next := attemptOk
          simp [servedFrom, served, inductionHypothesis restOk]

private theorem filterMap_toOption_map_ok (requests : List Request) :
    (requests.map (Except.ok : Request → Except Error Request)).filterMap Except.toOption =
      requests := by
  simp [List.filterMap_map, Function.comp_def, Except.toOption]

/-- The requests among the attempts are those on the agenda. -/
theorem agenda_eq_filterMap (resolver : Resolver) (graph : TaskGraph) :
    resolver.agenda graph = (resolver.attempts graph).filterMap Except.toOption := by
  have ofAccess : ∀ id item unit access,
      requests id item unit access (resolver.targetsFound item unit access) =
        (resolver.attemptsOf id item unit access).filterMap Except.toOption := by
    intro id item unit access
    unfold targetsFound attemptsOf
    cases targets resolver.grid item unit access with
    | error error => rfl
    | ok found => exact (filterMap_toOption_map_ok _).symm
  have ofItem : ∀ id,
      resolver.requestsOf graph id =
        (resolver.attemptsAt graph id).filterMap Except.toOption := by
    intro id
    unfold requestsOf attemptsAt
    cases graph.item? id with
    | none => rfl
    | some item =>
        dsimp only
        cases item.unit?.bind (resolver.units[·]?) with
        | none => rfl
        | some unit => simp only [List.filterMap_flatMap, ofAccess]
  unfold agenda attempts
  simp only [List.filterMap_flatMap, ← ofItem]

private theorem isPrefix_requestsServed (resolver : Resolver) (graph : TaskGraph) :
    resolver.requestsServed graph <+: resolver.agenda graph := by
  have served : (resolver.requestsServed graph).map .ok <+: resolver.attempts graph :=
    isPrefix_servedFrom _
  rw [agenda_eq_filterMap, ← filterMap_toOption_map_ok (resolver.requestsServed graph)]
  exact served.filterMap Except.toOption

/-- A resolution that succeeds has served all requests. -/
theorem requestsServed_of_ok
    {final : Resolution}
    (resolveOk : resolver.resolve graph = .ok final) :
    resolver.requestsServed graph = resolver.agenda graph := by
  rw [resolve_eq] at resolveOk
  rw [agenda_eq_filterMap, ← map_servedFrom_of_ok resolveOk, filterMap_toOption_map_ok]
  rfl

/-- Whoever was served has asked. -/
theorem asks_of_mem_served
    {request : Request}
    (member : request ∈ resolver.requestsServed graph) :
    resolver.Asks graph request :=
  mem_agenda.mp ((resolver.isPrefix_requestsServed graph).subset member)

theorem pairwise_requestsServed (resolver : Resolver) (graph : TaskGraph) :
    (resolver.requestsServed graph).Pairwise fun earlier later => earlier.id ≤ later.id :=
  (resolver.pairwise_agenda graph).sublist (resolver.isPrefix_requestsServed graph).sublist

end Resolver

end MeshTasks
