import MeshTasks.Proofs.FirstExecution
import MeshTasks.Proofs.Units.Regional
import MeshTasks.Proofs.Values

/-!
# Data paths from makers to askers

The compiler joins an item to the nearest maker of its value only. Earlier
makers come before it all the same: whoever makes the value later than they do
modifies it, and so asks for it first.
-/

namespace MeshTasks

/-- A unit that is spread over regions and disjoint materials, declared as the
operations on units declare it, whose modifications are of new values. -/
structure WorkUnit.Chained (unit : WorkUnit) : Prop where
  regional : unit.Regional
  declared : unit.Declared
  splits : unit.SplitsMaterials
  modifies_new : ∀ access ∈ unit.modifies, access.binding = .new

/-- Sorting a unit changes nothing that this is about. -/
private theorem WorkUnit.Chained.seated
    {unit : WorkUnit}
    (chained : unit.Chained)
    (seat phase : Option Nat) :
    { unit with seat := seat, phase := phase }.Chained where
  regional := ⟨chained.regional.per_region, chained.regional.on_regions,
    chained.regional.with_materials, chained.regional.bound, chained.regional.not_reduction,
    chained.regional.modifies_bare⟩
  declared := ⟨chained.declared.requires_mode, chained.declared.modifies_mode,
    chained.declared.computes_mode, chained.declared.computes_new⟩
  splits := ⟨chained.splits.inhabited, chained.splits.disjoint, chained.splits.implicit⟩
  modifies_new := chained.modifies_new

namespace Compiler

namespace Built

variable {compiler : Compiler} {units : List WorkUnit} {items : List WorkItem}
  {compiled : Compiled}

private theorem chained
    (built : compiler.Built units items compiled)
    (allChained : ∀ unit ∈ units, unit.Chained) :
    ∀ unit ∈ compiled.units, unit.Chained := by
  intro unit member
  obtain ⟨place, unitAt⟩ := List.mem_iff_getElem?.mp member
  obtain ⟨original, originalMember, phase, rfl⟩ :=
    (sortUnits_sorted built.sorted_ok).seated unitAt
  exact (allChained original originalMember).seated (some place) phase

end Built

end Compiler

theorem Row.declared_unit (name : String) (regions : List RegionId) :
    (Row.unit name regions).Declared :=
  ((WorkUnit.Declared.named name .perRegion).onRegions _).withMaterials _

end MeshTasks
