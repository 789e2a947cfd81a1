import MeshTasks.Proofs.FirstExecution
import MeshTasks.Proofs.Resolution.Attempts

/-!
# Graphs that are executed again and again

If a graph is executed again and again, an old value comes from its own last
producer after the first execution. This changes no item and nothing of the
first execution. Two resolutions that differ in this setting only go through
states that match but for their edges, so that they fail alike. What the edges
of the one carry in the first execution is what those of the other carry, even
where different materials of a transfer become different edges.
-/

namespace MeshTasks

/-- The settings for executing a graph again and again, or only once. -/
def Settings.iterating (settings : Settings) (flag : Bool) : Settings :=
  { settings with iterative := flag }

def Resolver.iterating (resolver : Resolver) (flag : Bool) : Resolver :=
  { resolver with settings := resolver.settings.iterating flag }

def Compiler.iterating (compiler : Compiler) (flag : Bool) : Compiler :=
  { compiler with settings := compiler.settings.iterating flag }

/-- What an edge transfers, no matter in which executions and for which
materials. -/
structure Flow where
  producer : Nat
  consumer : Nat
  label : Label
  binding : Binding
  region : Option RegionId
  box : Option Box
  offset : Vec
  kind : EdgeKind
deriving DecidableEq

def Edge.flow (edge : Edge) : Flow where
  producer := edge.producer
  consumer := edge.consumer
  label := edge.transfer.label
  binding := edge.transfer.binding
  region := edge.transfer.region
  box := edge.transfer.box
  offset := edge.transfer.offset
  kind := edge.transfer.kind

/-- A graph for many executions does in the first one what a graph for one
execution does. -/
structure TaskGraph.SameFirstExecution (iterated once : TaskGraph) : Prop where
  items_eq : iterated.items = once.items
  always : ∀ edge ∈ once.edges, edge.transfer.condition = .always
  flows : ∀ flow,
    (∃ edge ∈ iterated.edges, edge.countsFirst = true ∧ edge.flow = flow) ↔
      ∃ edge ∈ once.edges, edge.flow = flow
  materials : ∀ flow material,
    (∃ edge ∈ iterated.edges, edge.countsFirst = true ∧ edge.flow = flow ∧
        material ∈ edge.materials) ↔
      ∃ edge ∈ once.edges, edge.flow = flow ∧ material ∈ edge.materials

/-! ## Two resolutions step by step -/

/-- Two resolutions ended by the same error. -/
def Resolution.SameError (left right : Halted Resolution) : Prop :=
  left.error = right.error

/-- Two states are the same but for their edges. -/
structure Resolution.Matches (left right : Resolution) : Prop where
  items_eq : left.graph.items = right.graph.items
  sends_eq : left.sends = right.sends
  readers_eq : left.readers = right.readers
  warnings_eq : left.warnings = right.warnings

namespace Resolution.Matches

variable {left right : Resolution}

theorem refl (state : Resolution) : state.Matches state :=
  ⟨rfl, rfl, rfl, rfl⟩

theorem trans {middle : Resolution} (first : left.Matches middle) (second : middle.Matches right) :
    left.Matches right :=
  ⟨first.items_eq.trans second.items_eq, first.sends_eq.trans second.sends_eq,
    first.readers_eq.trans second.readers_eq, first.warnings_eq.trans second.warnings_eq⟩

theorem symm (matched : left.Matches right) : right.Matches left :=
  ⟨matched.items_eq.symm, matched.sends_eq.symm, matched.readers_eq.symm,
    matched.warnings_eq.symm⟩

theorem addEdge (matched : left.Matches right) (first second : Edge) :
    (left.addEdge first).Matches (right.addEdge second) :=
  ⟨matched.items_eq, matched.sends_eq, matched.readers_eq, matched.warnings_eq⟩

theorem sendFor
    (matched : left.Matches right)
    (placement : Placement) (region : Option RegionId) :
    (left.sendFor placement region).1.Matches (right.sendFor placement region).1 := by
  unfold Resolution.sendFor
  rw [← matched.sends_eq]
  cases left.sends.lookup region with
  | some id => exact matched
  | none =>
      exact ⟨by simp [TaskGraph.addItem, matched.items_eq],
        by simp [TaskGraph.addItem, matched.items_eq],
        matched.readers_eq, matched.warnings_eq⟩

variable (resolver : Resolver) (flag : Bool) (request : Request)

theorem orderAfter (matched : left.Matches right) (reader : Reader) :
    (resolver.orderAfter request left reader).Matches
      ((resolver.iterating flag).orderAfter request right reader) := by
  have samePolicy :
      (resolver.iterating flag).isPerRegion request.item = resolver.isPerRegion request.item := rfl
  have sameWarn :
      (resolver.iterating flag).settings.warnSameUnitModify =
        resolver.settings.warnSameUnitModify := rfl
  unfold Resolver.orderAfter
  rw [samePolicy, sameWarn, ← matched.warnings_eq]
  split
  · split
    · exact ⟨matched.items_eq, matched.sends_eq, matched.readers_eq, rfl⟩
    · exact matched
  · exact matched.addEdge _ _

theorem orderAfterReaders (matched : left.Matches right) (producer : Nat) :
    (resolver.orderAfterReaders request left producer).Matches
      ((resolver.iterating flag).orderAfterReaders request right producer) := by
  unfold Resolver.orderAfterReaders
  rw [← matched.readers_eq]
  exact List.foldl_rel matched fun reader _ _ _ current =>
    current.orderAfter resolver flag request reader

theorem follow (matched : left.Matches right) (producer : ProducerEntry) :
    (resolver.follow request left producer).Matches
      ((resolver.iterating flag).follow request right producer) := by
  have linked := matched.addEdge (request.edgeFrom producer.item .always)
    (request.edgeFrom producer.item .always)
  unfold Resolver.follow
  split
  · exact matched
  · dsimp only
    split
    · exact linked.orderAfterReaders resolver flag request producer.item
    · exact ⟨linked.items_eq, linked.sends_eq, by rw [linked.readers_eq], linked.warnings_eq⟩

/-- All that serving a request for an earlier generation adds to the send item
are edges. -/
private theorem of_servePrior (resolver : Resolver) (state : Resolution) (request : Request) :
    (state.sendFor resolver.placement request.target.region?).1.Matches
      (resolver.servePrior state request) := by
  unfold Resolver.servePrior
  cases resolver.lastProducer? request with
  | none => exact ⟨rfl, rfl, rfl, rfl⟩
  | some producer =>
      dsimp only
      split <;> exact ⟨rfl, rfl, rfl, rfl⟩

theorem servePrior (matched : left.Matches right) :
    (resolver.servePrior left request).Matches
      ((resolver.iterating flag).servePrior right request) := by
  have asked := matched.sendFor resolver.placement request.target.region?
  exact (of_servePrior resolver left request).symm.trans
    (asked.trans (of_servePrior (resolver.iterating flag) right request))

private theorem unresolved_eq (matched : left.Matches right) :
    resolver.unresolved left.graph request =
      (resolver.iterating flag).unresolved right.graph request := by
  unfold Resolver.unresolved TaskGraph.item?
  rw [matched.items_eq]
  rfl

theorem serve (matched : left.Matches right) :
    Alike SameError Matches (resolver.serve left request)
      ((resolver.iterating flag).serve right request) := by
  have sameProducers :
      (resolver.iterating flag).producers request = resolver.producers request := rfl
  have sameRemote : (resolver.iterating flag).isRemote request = resolver.isRemote request := rfl
  unfold Resolver.serve Resolver.serveNew
  rw [sameProducers, sameRemote]
  split
  · cases resolver.producers request with
    | nil =>
        dsimp only
        split
        · exact .ok matched
        · exact .error (matched.unresolved_eq resolver flag request)
    | cons first others =>
        refine .ok (List.foldl_rel matched fun producer _ _ _ current => ?_)
        exact current.follow resolver flag request producer
  · exact .ok (matched.servePrior resolver flag request)

theorem attempt (matched : left.Matches right) (attempted : Except Error Request) :
    Alike SameError Matches (resolver.attempt left attempted)
      ((resolver.iterating flag).attempt right attempted) := by
  cases attempted with
  | error error => exact .error rfl
  | ok request => exact matched.serve resolver flag request

end Resolution.Matches

/-- Resolving for many executions or for one only fails at the same place, or
comes to states that match. -/
theorem Resolver.resolve_alike (resolver : Resolver) (flag : Bool) (graph : TaskGraph) :
    Alike Resolution.SameError Resolution.Matches (resolver.resolve graph)
      ((resolver.iterating flag).resolve graph) := by
  have sameAttempts : (resolver.iterating flag).attempts graph = resolver.attempts graph := rfl
  rw [resolve_eq, resolve_eq, sameAttempts]
  apply Alike.foldlM
  · exact fun _ _ attempted matched => matched.attempt resolver flag attempted
  · exact .refl _

/-! ## The edges of the first execution -/

namespace Resolver

variable {resolver : Resolver} {graph : TaskGraph} {sendOf : Option RegionId → Nat}
  {request : Request} {edge : Edge}

private theorem Asks.iterating (asks : resolver.Asks graph request) (flag : Bool) :
    (resolver.iterating flag).Asks graph request :=
  ⟨asks.item_at, asks.unit_of, asks.consumed, asks.target_mem, asks.material_mem⟩

private theorem Takes.iterating
    {producer : ProducerEntry}
    (takes : resolver.Takes graph request producer) (flag : Bool) :
    (resolver.iterating flag).Takes graph request producer :=
  ⟨takes.asks.iterating flag, takes.is_new, takes.found, takes.other⟩

/-- What is added for the first execution is added in either setting, if perhaps
for other executions as well. -/
private theorem Adds.iterating
    (adds : resolver.Adds graph sendOf edge)
    (counts : edge.countsFirst = true)
    (flag : Bool) :
    ∃ other, (resolver.iterating flag).Adds graph sendOf other ∧ other.countsFirst = true ∧
      other.flow = edge.flow ∧ other.materials = edge.materials := by
  cases adds with
  | data takes => exact ⟨_, .data (takes.iterating flag), rfl, rfl, rfl⟩
  | ordering reads readsOnly overwrites modifies sameKey sameSource before apart =>
      refine ⟨_, .ordering (reads.iterating flag) readsOnly (overwrites.iterating flag) modifies
        sameKey sameSource before apart, rfl, rfl, rfl⟩
  | send asks prior =>
      refine ⟨_, .send (asks.iterating flag) prior, ?_, rfl, rfl⟩
      unfold Request.edgeFrom Edge.countsFirst
      split <;> rfl
  | last => cases counts

/-- Nothing depends on the execution if there is only one. -/
private theorem Adds.condition_eq
    (adds : resolver.Adds graph sendOf edge)
    (once : resolver.settings.iterative = false) :
    edge.transfer.condition = .always := by
  have nothingKept : ∀ request, resolver.lastProducer? request = none := by
    simp [lastProducer?, once]
  cases adds with
  | data => rfl
  | ordering => rfl
  | send => simp [Request.edgeFrom, nothingKept]
  | last _ _ found => simp [nothingKept] at found

end Resolver

namespace Edge

variable {left right : Edge}

private theorem Parallel.flow_eq (parallel : left.Parallel right) : left.flow = right.flow := by
  obtain ⟨sameProducer, sameConsumer, sameTransfer⟩ := parallel
  simp [flow, sameProducer, sameConsumer, sameTransfer]

private theorem Parallel.countsFirst_eq (parallel : left.Parallel right) :
    left.countsFirst = right.countsFirst := by
  simp [countsFirst, parallel.2.2]

end Edge

namespace Compiler

namespace Built

variable {compiler : Compiler} {units : List WorkUnit} {items : List WorkItem}
  (flag : Bool) {compiled other : Compiled}

private theorem units_eq
    {otherItems : List WorkItem}
    (built : compiler.Built units items compiled)
    (otherBuilt : (compiler.iterating flag).Built units otherItems other) :
    other.units = compiled.units :=
  Except.ok.inj (otherBuilt.sorted_ok.symm.trans built.sorted_ok)

private theorem items_unique
    {otherItems : List WorkItem}
    (built : compiler.Built units items compiled)
    (otherBuilt : (compiler.iterating flag).Built units otherItems other) :
    otherItems = items := by
  have otherOk := otherBuilt.items_ok
  rw [built.units_eq flag otherBuilt] at otherOk
  exact Except.ok.inj (otherOk.symm.trans built.items_ok)

/-- What one setting adds for the first execution is held by an edge of the
graph of the other. -/
private theorem exists_edge_iterating
    (built : compiler.Built units items compiled)
    (otherBuilt : (compiler.iterating flag).Built units items other)
    {added : Edge}
    (adds : compiler.Adds compiled.units items added)
    (counts : added.countsFirst = true) :
    ∃ edge ∈ other.graph.edges, edge.countsFirst = true ∧ edge.flow = added.flow ∧
      ∀ material ∈ added.materials, material ∈ edge.materials := by
  obtain ⟨same, sameAdds, sameCounts, sameFlow, sameMaterials⟩ :=
    Resolver.Adds.iterating adds counts flag
  have inOther : (compiler.iterating flag).Adds other.units items same := by
    rw [built.units_eq flag otherBuilt]
    exact sameAdds
  obtain ⟨edge, member, parallel, carries⟩ := otherBuilt.exists_edge_carrying inOther
  rw [sameMaterials] at carries
  exact ⟨edge, member, parallel.countsFirst_eq.trans sameCounts, parallel.flow_eq.trans sameFlow,
    carries⟩

private theorem exists_same_flow
    (built : compiler.Built units items compiled)
    (otherBuilt : (compiler.iterating flag).Built units items other)
    {edge : Edge}
    (member : edge ∈ compiled.graph.edges)
    (counts : edge.countsFirst = true) :
    ∃ same ∈ other.graph.edges, same.countsFirst = true ∧ same.flow = edge.flow := by
  obtain ⟨added, adds, parallel⟩ := built.exists_adds member
  obtain ⟨same, sameMember, sameCounts, sameFlow, _⟩ :=
    built.exists_edge_iterating flag otherBuilt adds (parallel.countsFirst_eq ▸ counts)
  exact ⟨same, sameMember, sameCounts, sameFlow.trans parallel.flow_eq.symm⟩

/-- The materials of a flow may be spread over other edges in the other
graph. -/
private theorem exists_same_flow_carrying
    (built : compiler.Built units items compiled)
    (otherBuilt : (compiler.iterating flag).Built units items other)
    {edge : Edge} {material : MaterialId}
    (member : edge ∈ compiled.graph.edges)
    (counts : edge.countsFirst = true)
    (carried : material ∈ edge.materials) :
    ∃ same ∈ other.graph.edges, same.countsFirst = true ∧ same.flow = edge.flow ∧
      material ∈ same.materials := by
  obtain ⟨added, adds, parallel, inAdded⟩ := (built.mem_materials_iff member).mp carried
  obtain ⟨same, sameMember, sameCounts, sameFlow, carries⟩ :=
    built.exists_edge_iterating flag otherBuilt adds (parallel.countsFirst_eq ▸ counts)
  exact ⟨same, sameMember, sameCounts, sameFlow.trans parallel.flow_eq.symm,
    carries material inAdded⟩

/-- Without later executions no edge is conditional. -/
private theorem condition_eq
    (built : (compiler.iterating false).Built units items compiled)
    {edge : Edge}
    (member : edge ∈ compiled.graph.edges) :
    edge.transfer.condition = .always := by
  obtain ⟨added, adds, parallel⟩ := built.exists_adds member
  rw [parallel.2.2]
  exact adds.condition_eq rfl

private theorem countsFirst_eq
    (built : (compiler.iterating false).Built units items compiled)
    {edge : Edge}
    (member : edge ∈ compiled.graph.edges) :
    edge.countsFirst = true := by
  simp [Edge.countsFirst, built.condition_eq member]

private theorem sameFirstExecution
    {iterated once : Compiled}
    (built : (compiler.iterating true).Built units items iterated)
    (onceBuilt : (compiler.iterating false).Built units items once) :
    iterated.graph.SameFirstExecution once.graph where
  items_eq := by
    have sameUnits : once.units = iterated.units := built.units_eq false onceBuilt
    rw [built.items_eq, onceBuilt.items_eq, sameUnits]
    rfl
  always := fun _ => onceBuilt.condition_eq
  flows := by
    intro flow
    constructor
    · rintro ⟨edge, member, counts, rfl⟩
      obtain ⟨same, sameMember, _, sameFlow⟩ := built.exists_same_flow false onceBuilt member counts
      exact ⟨same, sameMember, sameFlow⟩
    · rintro ⟨edge, member, rfl⟩
      exact onceBuilt.exists_same_flow true built member (onceBuilt.countsFirst_eq member)
  materials := by
    intro flow material
    constructor
    · rintro ⟨edge, member, counts, rfl, carried⟩
      obtain ⟨same, sameMember, _, sameFlow, sameCarried⟩ :=
        built.exists_same_flow_carrying false onceBuilt member counts carried
      exact ⟨same, sameMember, sameFlow, sameCarried⟩
    · rintro ⟨edge, member, rfl, carried⟩
      exact onceBuilt.exists_same_flow_carrying true built member
        (onceBuilt.countsFirst_eq member) carried

end Built

private theorem link_alike (compiler : Compiler) (flag : Bool) (sorted : List WorkUnit) :
    Alike Eq (fun compiled other : Compiled => compiled.warnings = other.warnings)
      (compiler.link sorted) ((compiler.iterating flag).link sorted) := by
  refine Alike.bind (fun _ => rfl) _ fun built => ?_
  have resolved := Resolver.resolve_alike
    ⟨compiler.grid, compiler.placement, compiler.settings, sorted, built.index⟩ flag built.graph
  simp only [Resolver.iterating] at resolved
  simp only [iterating]
  generalize Resolver.resolve _ _ = left at resolved ⊢
  generalize Resolver.resolve _ _ = right at resolved ⊢
  cases resolved with
  | error same => exact .error same
  | ok matched => exact .ok matched.warnings_eq

private theorem compile_alike (compiler : Compiler) (flag : Bool) (units : List WorkUnit) :
    Alike Eq (fun compiled other : Compiled => compiled.warnings = other.warnings)
      (compiler.compile units) ((compiler.iterating flag).compile units) :=
  Alike.bind (fun _ => rfl) _ fun _ => Alike.bind (fun _ => rfl) _ fun _ =>
    Alike.bind (fun _ => rfl) _ fun sorted => link_alike compiler flag sorted

/-- Whether a graph is for many executions or for one matters for the later ones
only. Both settings come to the same error, or to graphs with the same first
execution. -/
theorem compile_iterating (compiler : Compiler) (units : List WorkUnit) :
    (∃ error, (compiler.iterating true).compile units = .error error ∧
        (compiler.iterating false).compile units = .error error) ∨
      ∃ iterated once, (compiler.iterating true).compile units = .ok iterated ∧
        (compiler.iterating false).compile units = .ok once ∧
          iterated.units = once.units ∧ iterated.warnings = once.warnings ∧
            iterated.graph.SameFirstExecution once.graph := by
  have alike := (compiler.iterating true).compile_alike false units
  rcases (alike_iff _ _ _ _).mp alike with
    ⟨error, _, rfl, iteratedError, onceError⟩ | ⟨iterated, once, sameWarnings, iteratedOk, onceOk⟩
  · exact Or.inl ⟨error, iteratedError, onceError⟩
  · obtain ⟨_, _, items, built⟩ := compile_eq_ok_iff.mp iteratedOk
    obtain ⟨_, _, onceItems, onceBuilt⟩ := compile_eq_ok_iff.mp onceOk
    obtain rfl := built.items_unique false onceBuilt
    exact Or.inr ⟨iterated, once, iteratedOk, onceOk, (built.units_eq false onceBuilt).symm,
      sameWarnings, built.sameFirstExecution onceBuilt⟩

end Compiler

theorem compile_iterating_row :
    ∃ iterated once, (Row.compiler.iterating true).compile Row.readThenModify = .ok iterated ∧
      (Row.compiler.iterating false).compile Row.readThenModify = .ok once ∧
        iterated.graph.summary.subsequentIterationEdges = 3 ∧
          iterated.graph.SameFirstExecution once.graph := by
  rcases Row.compiler.compile_iterating Row.readThenModify with
    ⟨error, failed, _⟩ | ⟨iterated, once, iteratedOk, onceOk, _, _, same⟩
  · cases failed
  · refine ⟨iterated, once, iteratedOk, onceOk, ?_, same⟩
    cases iteratedOk
    rfl

end MeshTasks
