import MeshTasks.OrderedSet

/-!
# Identifiers

Regions, processes and materials are told apart by numbers of thirty-two bits.
Each kind has a type of its own, so that a region is never taken for a process.
-/

namespace MeshTasks

instance : Ranked UInt32 := ⟨UInt32.toNat, UInt32.toNat_inj.mp⟩

/-- A region of the grid; its number is unique over all levels. -/
structure RegionId where
  number : UInt32
deriving DecidableEq

instance : Ranked RegionId :=
  ⟨fun region => region.number.toNat, fun {left right} same => by
    cases left
    cases right
    exact congrArg RegionId.mk (UInt32.toNat_inj.mp same)⟩

def RegionId.render (region : RegionId) : String :=
  "R" ++ toString region.number.toNat

/-- A process that runs work. -/
structure ProcessId where
  number : UInt32
deriving DecidableEq

instance : Inhabited ProcessId := ⟨⟨0⟩⟩

instance : Ranked ProcessId :=
  ⟨fun process => process.number.toNat, fun {left right} same => by
    cases left
    cases right
    exact congrArg ProcessId.mk (UInt32.toNat_inj.mp same)⟩

def ProcessId.render (process : ProcessId) : String :=
  "P" ++ toString process.number.toNat

/-- A material carried on the grid. -/
structure MaterialId where
  number : UInt32
deriving DecidableEq

instance : Ranked MaterialId :=
  ⟨fun material => material.number.toNat, fun {left right} same => by
    cases left
    cases right
    exact congrArg MaterialId.mk (UInt32.toNat_inj.mp same)⟩

def MaterialId.render (material : MaterialId) : String :=
  toString material.number.toNat

abbrev RegionSet := OrderedSet RegionId

/-- The materials that one work item handles together. -/
abbrev MaterialSubset := OrderedSet MaterialId

end MeshTasks
