import MeshTasks.Rebinding
import MeshTasks.Resolution
import MeshTasks.Validation

/-!
# Compilation

Compiling checks the settings and the units, sorts the units, instantiates them
and resolves what they consume. The first error ends it and nothing partial
remains.
-/

namespace MeshTasks

structure Compiler where
  grid : Grid
  placement : Placement
  settings : Settings

/-- The sorted units and their graph; the unit at a position is the one its
items name. -/
structure Compiled where
  units : List WorkUnit
  graph : TaskGraph
  warnings : List Warning

namespace Compiler

/-- The graph of units that are sorted already. -/
def link (compiler : Compiler) (units : List WorkUnit) : Except Error Compiled := do
  let built ← blueprint compiler.grid compiler.settings compiler.placement units
  let resolver : Resolver :=
    ⟨compiler.grid, compiler.placement, compiler.settings, units, built.index⟩
  match resolver.resolve built.graph with
  | .error halted => .error halted.error
  | .ok resolved => .ok ⟨units, resolved.graph, resolved.warnings⟩

def compile (compiler : Compiler) (units : List WorkUnit) : Except Error Compiled := do
  compiler.settings.check
  validate compiler.grid units
  let sorted ← sortUnits units
  compiler.link sorted

/-- Compiles the units after giving them the stores of a map. -/
def compileWith (compiler : Compiler) (units : List WorkUnit) (map : StoreMap) :
    Except Error Compiled :=
  compiler.compile (rebind compiler.grid compiler.settings.intermediate units map)

/-- Gives the units of a compiled graph the stores of a map, for the next
execution; tells whether any unit changed. -/
def rebindCompiled (compiler : Compiler) (compiled : Compiled) (map : StoreMap) :
    Compiled × Bool :=
  let units := rebind compiler.grid compiler.settings.intermediate compiled.units map
  ({ compiled with units },
    rebindChanges compiler.grid compiler.settings.intermediate compiled.units map)

end Compiler

end MeshTasks
