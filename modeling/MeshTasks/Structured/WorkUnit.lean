import MeshTasks.Structured.Access
import MeshTasks.WorkUnit

/-!
# Forms of units

The form of a unit holds all that was declared of it. Seat and phase are given
by sorting and are no part of the form.
-/

namespace MeshTasks

def Policy.written : Policy → String
  | perRegion => "per-region"
  | oncePerProcess => "once-per-process"
  | outputOnce => "output-once"
  | synchronizing => "synchronizing"

instance : Structured Policy where
  toDatum policy := .text policy.written
  ofDatum? :=
    ofName? [.perRegion, .oncePerProcess, .outputOnce, .synchronizing] Policy.written

instance : Structured WorkUnit where
  toDatum unit :=
    .record [("name", toDatum unit.name), ("policy", toDatum unit.policy),
      ("requires", toDatum unit.requires), ("modifies", toDatum unit.modifies),
      ("computes", toDatum unit.computes), ("regions", toDatum unit.regions),
      ("materials", toDatum unit.materials), ("level", toDatum unit.pinned),
      ("generations", toDatum unit.stores)]
  ofDatum? datum :=
    match datum.fields?
        ["name", "policy", "requires", "modifies", "computes", "regions", "materials", "level",
          "generations"] with
    | some [name, policy, requires, modifies, computes, regions, materials, level,
        generations] => do
        return {
          name := ← name.required?
          policy := ← policy.required?
          requires := ← requires.required?
          modifies := ← modifies.required?
          computes := ← computes.required?
          regions := ← regions.optional?
          materials := ← materials.optional?
          pinned := ← level.orDefault? none
          stores := ← generations.orDefault? .standard
          seat := none
          phase := none }
    | _ => none

end MeshTasks
