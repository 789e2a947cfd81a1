import MeshTasks.Error

/-!
# Settings

The choices that govern one compilation.
-/

namespace MeshTasks

structure Settings where
  /-- How many consecutive processes share one output item. -/
  outputGroupSize : UInt32
  /-- Whether the graph is executed again and again, so that an old value may be
  one that the graph itself produced in the execution before. -/
  iterative : Bool
  /-- Whether finer levels step several times for each step of the coarsest
  one. -/
  intermediate : Bool
  /-- Whether to warn when a unit modifies a value that other items of the unit
  read. -/
  warnSameUnitModify : Bool
deriving DecidableEq

namespace Settings

def standard : Settings := ⟨1, false, false, true⟩

instance : Inhabited Settings := ⟨standard⟩

/-- A group of no process could write nothing. -/
def check (settings : Settings) : Except Error Unit :=
  if settings.outputGroupSize = 0 then
    .error (.settings "output-group-size must be at least 1")
  else
    .ok ()

end Settings

end MeshTasks
