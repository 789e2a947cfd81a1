import MeshTasks.Proofs.Iteration
import MeshTasks.Proofs.Service

/-!
# Old values after the first execution

After the first execution an old value comes from the last producer of all,
which is what the item would be served by if it came after every unit. Of the
parts of a reduction, which several items may leave at one order, only the part
recorded last is passed on.
-/

namespace MeshTasks

namespace Request

/-- The request as an item after all units would make it. -/
def afterAll (request : Request) : Request :=
  { request with item := { request.item with order := ProducerIndex.lastOrder } }

/-- An item asks for one transfer by both requests. If the first is for a named
material, so is the other. -/
structure Shares (request other : Request) : Prop where
  id_eq : other.id = request.id
  label_eq : other.access.label = request.access.label
  binding_eq : other.access.binding = request.access.binding
  target_eq : other.target = request.target
  material_eq : ∀ material, request.material = some material → other.material = some material

theorem Shares.refl (request : Request) : request.Shares request :=
  ⟨rfl, rfl, rfl, rfl, fun _ named => named⟩

end Request

private theorem Target.eq_of_parts
    {left right : Target}
    (regions : left.region? = right.region?)
    (boxes : left.box? = right.box?)
    (offsets : left.offset = right.offset) :
    left = right := by
  cases left <;> cases right
  · rfl
  · cases regions
  · cases regions
  · simp only [region?, box?, offset, Option.some.injEq] at regions boxes offsets
    rename_i left right
    cases left
    cases right
    simp_all

/-- What an edge brings for one request it brings for all that share the
transfer. -/
private theorem Edge.Brings.of_shares
    {edge : Edge} {request other : Request}
    (brings : edge.Brings other)
    (shares : request.Shares other) :
    edge.Brings request where
  consumer_eq := brings.consumer_eq.trans shares.id_eq
  label_eq := brings.label_eq.trans shares.label_eq
  binding_eq := brings.binding_eq.trans shares.binding_eq
  region_eq := by rw [brings.region_eq, shares.target_eq]
  box_eq := by rw [brings.box_eq, shares.target_eq]
  offset_eq := by rw [brings.offset_eq, shares.target_eq]
  kind_eq := brings.kind_eq
  carries material named := brings.carries material (shares.material_eq material named)

private theorem Edge.Brings.shares
    {edge : Edge} {request other : Request}
    (brings : edge.Brings request)
    (bringsOther : edge.Brings other)
    (sameMaterial : ∀ material, request.material = some material →
      other.material = some material) :
    request.Shares other where
  id_eq := bringsOther.consumer_eq.symm.trans brings.consumer_eq
  label_eq := bringsOther.label_eq.symm.trans brings.label_eq
  binding_eq := bringsOther.binding_eq.symm.trans brings.binding_eq
  target_eq := Target.eq_of_parts (bringsOther.region_eq.symm.trans brings.region_eq)
    (bringsOther.box_eq.symm.trans brings.box_eq)
    (bringsOther.offset_eq.symm.trans brings.offset_eq)
  material_eq := sameMaterial

/-- An item supplies what a request is about in the executions after the
first. -/
def TaskGraph.BringsLater (graph : TaskGraph) (request : Request) (source : Nat) : Prop :=
  ∃ edge ∈ graph.edges, edge.Brings request ∧ edge.producer = source ∧
    edge.transfer.condition = .subsequentIterationsOnly

namespace Resolver

variable {resolver : Resolver} {graph : TaskGraph} {request other : Request}

/-- Where an item finds an old value in the executions after the first: at the
last of the producers that it would find after all units. These are all its
producers if they are one item, as they are for every value that is no
reduction. -/
structure FindsLater (resolver : Resolver) (graph : TaskGraph) (request : Request) : Prop where
  at_last : ∀ source, graph.BringsLater request source ↔
    source ≠ request.id ∧ ∃ other, resolver.Asks graph other ∧ request.Shares other ∧
      ∃ producer, (resolver.producers other.afterAll).getLast? = some producer ∧
        producer.item = source
  at_all : (∀ other, resolver.Asks graph other → request.Shares other →
      other.material = request.material) →
    (request.access.label.isReduction = true →
      ∀ first ∈ resolver.producers request.afterAll,
        ∀ second ∈ resolver.producers request.afterAll, first.item = second.item) →
    ∀ source, graph.BringsLater request source ↔
      source ≠ request.id ∧ ∃ producer ∈ resolver.producers request.afterAll,
        producer.item = source

/-- The last producer of a value is the last one that a request after all units
would find. -/
theorem getLast?_producers_afterAll (resolver : Resolver) (request : Request) :
    (resolver.producers request.afterAll).getLast? =
      resolver.index.findProducer? request.producerKey ProducerIndex.lastOrder := by
  have sameKey : request.afterAll.producerKey = request.producerKey := rfl
  have sameAccess : request.afterAll.access = request.access := rfl
  have order : request.afterAll.item.order = ProducerIndex.lastOrder := rfl
  unfold producers
  rw [sameKey, sameAccess, order]
  by_cases reduction : request.access.label.isReduction = true
  · rw [if_pos reduction, ProducerIndex.getLast?_findAllProducers]
  · rw [if_neg reduction]
    cases resolver.index.findProducer? request.producerKey ProducerIndex.lastOrder <;> rfl

private theorem eq_of_mem_producers
    {first second : ProducerEntry}
    (single : request.access.label.isReduction = false)
    (firstMember : first ∈ resolver.producers request)
    (secondMember : second ∈ resolver.producers request) :
    first = second := by
  simp only [producers, single, Bool.false_eq_true, if_false, Option.mem_toList] at *
  exact Option.some.inj (firstMember.symm.trans secondMember)

/-- Requests of one item that share a transfer are of one unit. -/
private theorem Asks.unit_eq_of_shares
    (asks : resolver.Asks graph request)
    (otherAsks : resolver.Asks graph other)
    (shares : request.Shares other) :
    other.unit = request.unit := by
  have otherAt := otherAsks.item_at
  rw [shares.id_eq, asks.item_at, Option.some.injEq] at otherAt
  have otherUnit := otherAsks.unit_of
  rw [← otherAt, asks.unit_of, Option.some.injEq] at otherUnit
  exact otherUnit.symm

private theorem Asks.isNewLike_eq_of_shares
    (asks : resolver.Asks graph request)
    (otherAsks : resolver.Asks graph other)
    (shares : request.Shares other) :
    other.isNewLike = request.isNewLike := by
  unfold Request.isNewLike
  rw [asks.unit_eq_of_shares otherAsks shares, shares.binding_eq]

private theorem producerKey_eq_of_shares
    (shares : request.Shares other)
    (sameMaterial : other.material = request.material) :
    other.producerKey = request.producerKey := by
  unfold Request.producerKey Request.key
  rw [shares.label_eq, shares.target_eq, sameMaterial]

end Resolver

namespace Compiler

namespace Built

variable {compiler : Compiler} {units : List WorkUnit} {items : List WorkItem}
  {compiled : Compiled} {request : Request}

/-- An item of a later execution reads from the last producer of its own request
or of another for the same transfer. -/
theorem bringsLater_iff
    (built : compiler.Built units items compiled)
    (iterative : compiler.settings.iterative = true)
    (asks : (compiler.resolver compiled.units items).Asks compiled.graph request)
    (isOld : request.access.binding = .old)
    (isPrior : request.isNewLike = false)
    (source : Nat) :
    compiled.graph.BringsLater request source ↔
      source ≠ request.id ∧
        ∃ other, (compiler.resolver compiled.units items).Asks compiled.graph other ∧
          request.Shares other ∧
            ∃ producer,
              ((compiler.resolver compiled.units items).producers other.afterAll).getLast? =
                some producer ∧ producer.item = source := by
  constructor
  · rintro ⟨edge, member, brings, rfl, later⟩
    obtain ⟨served, carried⟩ := built.resolves.data_serves edge member brings.kind_eq
    have fromOther :
        ∃ other, (compiler.resolver compiled.units items).Asks compiled.graph other ∧
          request.Shares other ∧
            (compiler.resolver compiled.units items).Supplies compiled.graph other edge.producer
              edge.transfer.condition := by
      cases material : request.material with
      | none =>
          obtain ⟨other, otherAsks, bringsOther, supplies⟩ := served
          exact ⟨other, otherAsks, brings.shares bringsOther (by simp [material]), supplies⟩
      | some named =>
          obtain ⟨other, otherMaterial, otherAsks, bringsOther, supplies⟩ :=
            carried named (brings.carries named material)
          refine ⟨other, otherAsks, brings.shares bringsOther fun asked same => ?_, supplies⟩
          exact otherMaterial.trans (material.symm.trans same)
    obtain ⟨other, otherAsks, shares, supplies⟩ := fromOther
    refine ⟨brings.consumer_eq ▸ built.producer_ne_consumer member, other, otherAsks, shares, ?_⟩
    rw [later] at supplies
    generalize edge.producer = source at supplies ⊢
    cases supplies with
    | sent _ _ first => exact absurd rfl first
    | kept _ _ _ found =>
        exact ⟨_, (Resolver.getLast?_producers_afterAll _ _).trans found, rfl⟩
  · rintro ⟨apart, other, otherAsks, shares, producer, last, rfl⟩
    rw [Resolver.getLast?_producers_afterAll] at last
    have prior : ¬ other.isNewLike = true := by
      simp [asks.isNewLike_eq_of_shares otherAsks shares, isPrior]
    have found :
        (compiler.resolver compiled.units items).lastProducer? other = some producer :=
      Resolver.lastProducer?_eq_some_iff.mpr
        ⟨⟨iterative, shares.binding_eq.trans isOld⟩, last⟩
    obtain ⟨edge, member, brings, fromLast, later⟩ :=
      built.exists_edge_bringing
        (.last (built.asks_iff.mp otherAsks) prior found (shares.id_eq ▸ apart))
    exact ⟨edge, member, brings.of_shares shares, fromLast, later⟩

private theorem findsLater
    (built : compiler.Built units items compiled)
    (iterative : compiler.settings.iterative = true)
    (asks : (compiler.resolver compiled.units items).Asks compiled.graph request)
    (isOld : request.access.binding = .old)
    (isPrior : request.isNewLike = false) :
    (compiler.resolver compiled.units items).FindsLater compiled.graph request where
  at_last := built.bringsLater_iff iterative asks isOld isPrior
  at_all := by
    intro sameMaterials oneItem source
    rw [built.bringsLater_iff iterative asks isOld isPrior]
    refine and_congr_right fun _ => ?_
    constructor
    · rintro ⟨other, otherAsks, shares, producer, last, fromProducer⟩
      rw [Resolver.getLast?_producers_afterAll, Resolver.producerKey_eq_of_shares shares
        (sameMaterials other otherAsks shares), ← Resolver.getLast?_producers_afterAll] at last
      exact ⟨producer, List.mem_of_getLast? last, fromProducer⟩
    · rintro ⟨producer, member, fromProducer⟩
      obtain ⟨last, lastEq⟩ : ∃ last, ((compiler.resolver compiled.units items).producers
          request.afterAll).getLast? = some last :=
        Option.isSome_iff_exists.mp (by simpa using List.ne_nil_of_mem member)
      refine ⟨request, asks, .refl request, last, lastEq, ?_⟩
      have lastMember := List.mem_of_getLast? lastEq
      by_cases reduction : request.access.label.isReduction = true
      · exact (oneItem reduction last lastMember producer member).trans fromProducer
      · have single : request.afterAll.access.label.isReduction = false :=
          Bool.eq_false_iff.mpr reduction
        rw [Resolver.eq_of_mem_producers single lastMember member, fromProducer]

end Built

/-- After the first execution, every old value that is not like a new one comes
from the last of the producers that a request after all units would find, unless
that is the item itself. -/
theorem findsLater_of_compile
    {compiler : Compiler} {units : List WorkUnit} {compiled : Compiled}
    (iterative : compiler.settings.iterative = true)
    (compiledOk : compiler.compile units = .ok compiled) :
    ∃ built,
      blueprint compiler.grid compiler.settings compiler.placement compiled.units = .ok built ∧
        ∀ request,
          Resolver.Asks
              ⟨compiler.grid, compiler.placement, compiler.settings, compiled.units, built.index⟩
              compiled.graph request →
            request.access.binding = .old → request.isNewLike = false →
              Resolver.FindsLater
                ⟨compiler.grid, compiler.placement, compiler.settings, compiled.units, built.index⟩
                compiled.graph request := by
  obtain ⟨_, _, items, built⟩ := compile_eq_ok_iff.mp compiledOk
  refine ⟨_, blueprint_eq_ok_iff.mpr ⟨items, built.items_ok, rfl, built.agreed⟩, ?_⟩
  intro request asks isOld isPrior
  exact built.findsLater iterative asks isOld isPrior

end Compiler

namespace Row

/-- What compiling some units for many executions gives, nothing if it fails. -/
def rerun (units : List WorkUnit) : Compiled :=
  match (compiler.iterating true).compile units with
  | .ok compiled => compiled
  | .error _ => ⟨[], .empty, []⟩

/-- What resolves the requests of such a graph. -/
def rerunResolver (units : List WorkUnit) (index : ProducerIndex) : Resolver :=
  ⟨grid, compiler.placement, Settings.standard.iterating true, (rerun units).units, index⟩

/-- The left cube asks for the old densities of the right one next to it. -/
def oldDensityOfRight : Request where
  id := 0
  item := (rerun readThenModify).graph.items[0]
  unit := (rerun readThenModify).units[0]
  access := { around with binding := .old }
  target := .part ⟨⟨1⟩, ⟨⟨four, .zero, .zero⟩, ⟨.clamp 5, four, four⟩⟩, .zero⟩
  material := some ⟨0⟩

private theorem asks_oldDensityOfRight (index : ProducerIndex) :
    (rerunResolver readThenModify index).Asks (rerun readThenModify).graph
      oldDensityOfRight where
  item_at := rfl
  unit_of := rfl
  consumed := List.mem_cons_self
  target_mem := List.mem_cons_of_mem _ List.mem_cons_self
  material_mem := List.mem_cons_self

def total : Label := ⟨"total", .reduction⟩

/-- Each cube leaves its part of a total, and the left one asks for the total of
before. -/
def gatherThenReport : List WorkUnit := [
  (unit "gather" [⟨0⟩, ⟨1⟩]).computing (.of total),
  (unit "report" [⟨0⟩]).requiring { Access.of total with binding := .old }]

/-- That request for the total. -/
def oldTotal : Request where
  id := 2
  item := (rerun gatherThenReport).graph.items[2]
  unit := (rerun gatherThenReport).units[1]
  access := { Access.of total with binding := .old }
  target := .global
  material := none

end Row

theorem findsLater_row :
    (Row.compiler.iterating true).compile Row.readThenModify =
        .ok (Row.rerun Row.readThenModify) ∧
      ∃ built,
        blueprint Row.grid (Settings.standard.iterating true) Row.compiler.placement
            (Row.rerun Row.readThenModify).units = .ok built ∧
          (Row.rerunResolver Row.readThenModify built.index).Asks
              (Row.rerun Row.readThenModify).graph Row.oldDensityOfRight ∧
            Row.oldDensityOfRight.access.binding = .old ∧
              Row.oldDensityOfRight.isNewLike = false ∧
                ∀ source,
                  (Row.rerun Row.readThenModify).graph.BringsLater Row.oldDensityOfRight source ↔
                    source = 3 := by
  have compiledOk :
      (Row.compiler.iterating true).compile Row.readThenModify =
        .ok (Row.rerun Row.readThenModify) := rfl
  obtain ⟨built, builtOk, finds⟩ := Compiler.findsLater_of_compile rfl compiledOk
  have asks := Row.asks_oldDensityOfRight built.index
  refine ⟨compiledOk, built, builtOk, asks, rfl, rfl, fun source => ?_⟩
  have named : ∀ other, Row.oldDensityOfRight.Shares other →
      other.material = Row.oldDensityOfRight.material :=
    fun other shares => shares.material_eq ⟨0⟩ rfl
  rw [(finds Row.oldDensityOfRight asks rfl rfl).at_all (fun other _ => named other) nofun source]
  cases builtOk
  constructor
  · rintro ⟨_, producer, drained, rfl⟩
    cases List.mem_singleton.mp drained
    rfl
  · rintro rfl
    exact ⟨by decide, ⟨3, 2, .modifies⟩, List.mem_singleton_self _, rfl⟩

/-- Of two parts of a total, only the one recorded last is passed on to the next
execution. -/
theorem later_part_missing_row :
    (Row.compiler.iterating true).compile Row.gatherThenReport =
        .ok (Row.rerun Row.gatherThenReport) ∧
      ∃ built,
        blueprint Row.grid (Settings.standard.iterating true) Row.compiler.placement
            (Row.rerun Row.gatherThenReport).units = .ok built ∧
          (Row.rerunResolver Row.gatherThenReport built.index).Asks
              (Row.rerun Row.gatherThenReport).graph Row.oldTotal ∧
            Row.oldTotal.access.binding = .old ∧ Row.oldTotal.isNewLike = false ∧
              ¬ ∀ source,
                (Row.rerun Row.gatherThenReport).graph.BringsLater Row.oldTotal source ↔
                  source ≠ Row.oldTotal.id ∧
                    ∃ producer ∈
                      (Row.rerunResolver Row.gatherThenReport built.index).producers
                        Row.oldTotal.afterAll,
                      producer.item = source := by
  have fromRightOnly :
      ∀ edge ∈ (Row.rerun Row.gatherThenReport).graph.edges, edge.producer = 0 →
        edge.transfer.condition ≠ .subsequentIterationsOnly := by
    decide
  refine ⟨rfl, _, rfl, ⟨rfl, rfl, by decide, by decide, by decide⟩, rfl, rfl, fun allParts => ?_⟩
  obtain ⟨edge, member, _, fromLeft, later⟩ :=
    (allParts 0).mpr ⟨by decide, ⟨0, 0, .computes⟩, by decide, rfl⟩
  exact fromRightOnly edge member fromLeft later

end MeshTasks
