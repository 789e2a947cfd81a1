import MeshTasks.Proofs.Overwrites

/-!
# Where new values come from

An edge that brings a new value in every execution starts at the nearest maker
of the value before its consumer. The index knows a value by label, region and
material, and not by the store that holds it. So the nearest maker may be a unit
that modifies an earlier generation of the value. Where no unit does so,
whatever is asked for as new was left as new.
-/

namespace MeshTasks

namespace Compiled

/-- All units that modify a label do so where new values are kept. -/
def ModifiesNew (units : List WorkUnit) (label : Label) : Prop :=
  ∀ unit ∈ units, ∀ access ∈ unit.modifies, access.label = label →
    unit.isNewLike access.binding = true

instance (units : List WorkUnit) (label : Label) : Decidable (ModifiesNew units label) :=
  inferInstanceAs
    (Decidable (∀ unit ∈ units, ∀ access ∈ unit.modifies, access.label = label →
      unit.isNewLike access.binding = true))

end Compiled

/-- The key under which the index knows a stored value. -/
def ScrubKey.value (carried : ScrubKey) : ValueKey :=
  ⟨carried.label, carried.region, carried.material⟩

/-- A data edge carries at least one value. -/
private theorem Edge.scrubKeys_ne_nil
    {edge : Edge}
    (isData : edge.transfer.kind = .data) :
    edge.scrubKeys ≠ [] := by
  unfold scrubKeys
  rw [if_neg (by simp [isData])]
  cases edge.materials with
  | nil => exact List.cons_ne_nil _ _
  | cons material rest => exact List.cons_ne_nil _ _

namespace Compiler

namespace Built

variable {compiler : Compiler} {units : List WorkUnit} {items : List WorkItem}
  {compiled : Compiled}

/-- Whatever a request takes is left by an item before it, and by none nearer to
it. -/
private theorem exists_leaves_of_takes
    (built : compiler.Built units items compiled)
    {request : Request} {producer : ProducerEntry}
    (takes : (compiler.resolver compiled.units items).Takes (.ofItems items) request producer) :
    ∃ maker unit access, compiled.Leaves producer.item maker unit access request.key ∧
      maker.order < request.item.order ∧
        ∀ id other owner through, compiled.Leaves id other owner through request.key →
          other.order < request.item.order → other.order ≤ maker.order := by
  obtain ⟨candidate, nearest⟩ := Resolver.producers_spec takes.found
  rw [producerKey_eq takes.asks] at candidate nearest
  obtain ⟨visible, earlier⟩ := ProducerIndex.mem_candidates.mp candidate
  obtain ⟨maker, unit, access, leaves, orderEq, _⟩ := built.mem_visible_iff.mp visible
  refine ⟨maker, unit, access, leaves, orderEq ▸ earlier, ?_⟩
  intro id other owner through otherLeaves otherEarlier
  have otherVisible :
      (⟨id, other.order, through.mode⟩ : ProducerEntry) ∈
        (compiler.resolver compiled.units items).index.visible request.key :=
    built.mem_visible_iff.mpr ⟨other, owner, through, otherLeaves, rfl, rfl⟩
  rw [← orderEq]
  exact nearest _ (ProducerIndex.mem_candidates.mpr ⟨otherVisible, otherEarlier⟩)

/-- Results are left as new; a modification leaves what it modifies in the store
that it is bound to. -/
private theorem isNewLike_or_modifies
    (built : compiler.Built units items compiled)
    (allDeclared : ∀ unit ∈ units, unit.Declared)
    {id : Nat} {item : WorkItem} {unit : WorkUnit} {access : Access} {key : ValueKey}
    (leaves : compiled.Leaves id item unit access key) :
    unit.isNewLike access.binding = true ∨ access ∈ unit.modifies := by
  rcases List.mem_append.mp leaves.produced with computes | modifies
  · left
    obtain ⟨_, _, unitAt⟩ := Option.bind_eq_some_iff.mp leaves.unit_of
    have declared := built.declared allDeclared unit (List.mem_of_getElem? unitAt)
    rw [declared.computes_new access computes]
    exact decide_eq_true rfl
  · exact Or.inr modifies

/-- Sorting leaves the modifications of units and their stores as they are. -/
private theorem modifiesNew
    (built : compiler.Built units items compiled)
    {label : Label}
    (modifyNew : Compiled.ModifiesNew units label) :
    Compiled.ModifiesNew compiled.units label := by
  intro unit member access modifies sameLabel
  obtain ⟨place, unitAt⟩ := List.mem_iff_getElem?.mp member
  obtain ⟨original, originalMember, phase, rfl⟩ :=
    (sortUnits_sorted built.sorted_ok).seated unitAt
  exact modifyNew original originalMember access modifies sameLabel

end Built

/-- An edge that brings new values in every execution carries some, and starts
at the nearest item before its consumer that leaves them. They are left as new,
unless the item modifies an earlier generation of them; if all units that modify
the label do so in the new store, they are left as new. -/
theorem exists_leaves_of_bringsNew
    {compiler : Compiler} {units : List WorkUnit} {compiled : Compiled}
    (allDeclared : ∀ unit ∈ units, unit.Declared)
    (compiledOk : compiler.compile units = .ok compiled)
    {edge : Edge} {item : WorkItem}
    (brings : compiled.BringsNew edge item) :
    edge.scrubKeys ≠ [] ∧ ∀ carried ∈ edge.scrubKeys, ∃ maker unit access,
      compiled.Leaves edge.producer maker unit access carried.value ∧
        access.label = edge.transfer.label ∧
          maker.order < item.order ∧
            (∀ id other owner through, compiled.Leaves id other owner through carried.value →
              other.order < item.order → other.order ≤ maker.order) ∧
              (unit.isNewLike access.binding = true ∨ access ∈ unit.modifies) ∧
                (Compiled.ModifiesNew units edge.transfer.label →
                  unit.isNewLike access.binding = true) := by
  obtain ⟨_, _, items, built⟩ := compile_eq_ok_iff.mp compiledOk
  refine ⟨Edge.scrubKeys_ne_nil brings.is_data, fun carried member => ?_⟩
  obtain ⟨request, producer, takes, sameKey, _, rfl, sameProducer⟩ :=
    built.exists_takes_of_carried brings member
  have isValue : request.key = carried.value := sameKey
  obtain ⟨maker, unit, access, leaves, earlier, nearest⟩ := built.exists_leaves_of_takes takes
  rw [isValue, sameProducer] at leaves
  rw [isValue] at nearest
  have sameLabel : access.label = edge.transfer.label :=
    leaves.label_eq.trans (Edge.mem_scrubKeys.mp member).2.1
  have asNew := built.isNewLike_or_modifies allDeclared leaves
  refine ⟨maker, unit, access, leaves, sameLabel, earlier, nearest, asNew, fun modifyNew => ?_⟩
  rcases asNew with newLike | modifies
  · exact newLike
  · obtain ⟨_, _, unitAt⟩ := Option.bind_eq_some_iff.mp leaves.unit_of
    exact built.modifiesNew modifyNew unit (List.mem_of_getElem? unitAt) access modifies sameLabel

end Compiler

/-! ## The left cube, drained and measured -/

namespace Row

/-- The left cube is drained of what it held before, and then measured. -/
def drainThenMeasure : List WorkUnit := [
  (unit "drain" [⟨0⟩]).modifying { Access.of density with binding := .old },
  (unit "measure" [⟨0⟩]).requiring (.of density)]

/-- What brings the density of the left cube to the second unit. -/
def drained : Edge :=
  ⟨0, 1, ⟨density, .new, some ⟨0⟩, some ⟨.zero, ⟨four, four, four⟩⟩, .zero, .always, .data⟩, [⟨0⟩]⟩

end Row

theorem exists_leaves_of_bringsNew_row :
    Row.compiler.compile Row.readThenModify = .ok (Row.result Row.readThenModify) ∧
      ∃ maker unit access,
        (Row.result Row.readThenModify).Leaves Row.carried.producer maker unit access
            Row.densityOfRight ∧
          unit.isNewLike access.binding = true := by
  have compiledOk :
      Row.compiler.compile Row.readThenModify = .ok (Row.result Row.readThenModify) := rfl
  have brings :
      (Row.result Row.readThenModify).BringsNew Row.carried (Row.item 1 "measure" ⟨0⟩) :=
    ⟨by decide, rfl, rfl, rfl, _, rfl, by decide⟩
  have modifyNew : Compiled.ModifiesNew Row.readThenModify Row.density := by
    decide
  obtain ⟨_, sources⟩ :=
    Compiler.exists_leaves_of_bringsNew Row.readThenModify_declared compiledOk brings
  obtain ⟨maker, unit, access, leaves, _, _, _, _, asNew⟩ :=
    sources ⟨Row.density, .new, some ⟨1⟩, some ⟨0⟩⟩ (by decide)
  exact ⟨compiledOk, maker, unit, access, leaves, asNew modifyNew⟩

/-- What is measured as new is what is left of the density of before. -/
theorem measures_drained_row :
    (∀ unit ∈ Row.drainThenMeasure, unit.Declared) ∧
      Row.compiler.compile Row.drainThenMeasure = .ok (Row.result Row.drainThenMeasure) ∧
        (Row.result Row.drainThenMeasure).BringsNew Row.drained (Row.item 1 "measure" ⟨0⟩) ∧
          ¬ ∃ maker unit access,
            (Row.result Row.drainThenMeasure).graph.item? Row.drained.producer = some maker ∧
              maker.unit?.bind ((Row.result Row.drainThenMeasure).units[·]?) = some unit ∧
                access ∈ unit.produced ∧ access.label = Row.density ∧
                  unit.isNewLike access.binding = true := by
  refine ⟨?_, rfl, ⟨by decide, rfl, rfl, rfl, _, rfl, by decide⟩, ?_⟩
  · intro unit member
    rcases List.mem_cons.mp member with rfl | member
    · exact (Row.declared_unit _ _).modifying _
    · rw [List.mem_singleton.mp member]
      exact (Row.declared_unit _ _).requiring _
  · rintro ⟨maker, unit, access, makerAt, unitOf, produced, sameLabel, newLike⟩
    have neverNew :
        ∀ maker ∈ (Row.result Row.drainThenMeasure).graph.item? Row.drained.producer,
          ∀ unit ∈ maker.unit?.bind ((Row.result Row.drainThenMeasure).units[·]?),
            ∀ access ∈ unit.produced, unit.isNewLike access.binding = false := by
      decide
    exact absurd newLike (Bool.eq_false_iff.mp (neverNew maker makerAt unit unitOf access produced))

end MeshTasks
