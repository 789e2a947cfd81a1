import MeshTasks.Compilation
import MeshTasks.Proofs.Schedule.Exchange
import MeshTasks.Proofs.Structured.Reading

/-!
# Copies of units

Units that went through their forms are as they were declared, without seats and
phases. Nothing in a compilation looks at these before the sorting, which writes
its own: the copies have the same schedule and the same errors, and they leave
the sorting as the very units that the originals become. So they compile to the
same graph.
-/

namespace MeshTasks

namespace WorkUnit

private theorem toDatum_declared (unit : WorkUnit) : toDatum unit.declared = toDatum unit :=
  rfl

private theorem keepsNeeds_declared : KeepsNeeds declared where
  name_eq _ := rfl
  policy_eq _ := rfl
  computes_eq _ := rfl
  neededLabels_eq _ := rfl

end WorkUnit

section Sorting

variable (units : List WorkUnit)

private theorem seatUnits_declared (order : List Nat) :
    seatUnits (units.map .declared) order = seatUnits units order := by
  unfold seatUnits
  congr 1
  funext ⟨position, seat⟩
  simp only [List.getElem?_map, WorkUnit.keepsNeeds_declared.phaseOf?_map, Option.map_map]
  -- Both fields in which the units differ are written here.
  rfl

theorem sortUnits_declared : sortUnits (units.map .declared) = sortUnits units := by
  simp only [sortUnits, WorkUnit.keepsNeeds_declared.schedule_map, seatUnits_declared]

theorem compile_declared (compiler : Compiler) :
    compiler.compile (units.map .declared) = compiler.compile units := by
  have sameValidation :
      validate compiler.grid (units.map .declared) = validate compiler.grid units :=
    WorkUnit.keepsNeeds_declared.validate_map (fun _ => rfl) units
  simp only [Compiler.compile, sameValidation, sortUnits_declared]

end Sorting

/-- A unit is read back without its seat and its phase and has the same form
again; and a list of units compiles as its copy does, under whatever grid,
placement and settings. -/
theorem compile_copies :
    (∀ unit : WorkUnit,
      ofDatum? (toDatum unit) = some { unit with seat := none, phase := none } ∧
        toDatum ({ unit with seat := none, phase := none } : WorkUnit) = toDatum unit) ∧
      ∀ units : List WorkUnit, ∃ copies,
        ofDatum? (toDatum units) = some copies ∧
          ∀ compiler : Compiler, compiler.compile copies = compiler.compile units :=
  ⟨fun unit => ⟨unit.ofDatum?_toDatum, unit.toDatum_declared⟩,
    fun units =>
      ⟨units.map .declared, ofDatum?_toDatum_list WorkUnit.ofDatum?_toDatum units,
        compile_declared units⟩⟩

end MeshTasks
