import MeshTasks.Space.Box
import MeshTasks.Id
import MeshTasks.Access.Binding

/-!
# Errors

What can be wrong with levels, grids, units, settings and a computation on them.
Each error has a message; most have a code and some a hint under which they are
reported.
-/

namespace MeshTasks

/-- One of the two things that place a unit on the grid. -/
inductive PlacementPart where
  | regions
  | materials
deriving DecidableEq

namespace PlacementPart

def other : PlacementPart → PlacementPart
  | regions => materials
  | materials => regions

def render : PlacementPart → String
  | regions => "a region set"
  | materials => "a material set"

end PlacementPart

inductive Error where
  /-- Arithmetic on bounded numbers came to a fault. -/
  | arithmetic (fault : Fault)
  /-- Two regions of a grid share a number. -/
  | duplicateRegion (region : RegionId)
  /-- A region covers no cell. -/
  | emptyRegion (region : RegionId) (box : Box)
  /-- A refinement ratio is not positive on some axis. -/
  | refinementRatio (level : Nat) (ratio : Vec)
  /-- A region was given to a level other than its own. -/
  | levelMismatch (region : RegionId) (expected actual : Nat)
  /-- Units wait for each other in a loop, given hop by hop. -/
  | cycle (hops : List String)
  /-- Two units compute one value in one place. -/
  | duplicateProducer (label : String) (region : Option RegionId) (material : Option MaterialId)
      (first second : String)
  /-- A unit has regions without materials, or the reverse. -/
  | missingPlacement (unit : String) (present : PlacementPart)
  /-- No producer of a consumed value can be found. -/
  | unresolved (label : String) (binding : Binding) (consumer : String)
      (region : Option RegionId) (material : Option MaterialId) (nearest : Option String)
  /-- A unit names a region that the grid lacks. -/
  | unknownRegion (unit : String) (region : RegionId)
  /-- An access of a unit leads off the levels of the grid. -/
  | levelOutOfRange (unit : String) (level : Nat) (offset : Int)
  /-- The settings cannot be used. -/
  | settings (reason : String)
  /-- A file cannot be used. -/
  | file (path operation : String)
deriving DecidableEq

namespace Error

/-- A value that an error may leave open; left open, it concerns all. -/
def orAll {α : Type} (render : α → String) : Option α → String
  | none => "all"
  | some value => render value

def message : Error → String
  | arithmetic fault => fault.message
  | duplicateRegion region => "Region " ++ region.render ++ " is defined more than once"
  | emptyRegion region box =>
      "Region " ++ region.render ++ " has an empty range " ++ box.render
  | refinementRatio level ratio =>
      "Level " ++ toString level ++ " has invalid refinement ratio " ++ ratio.render
  | levelMismatch region expected actual =>
      "Region " ++ region.render ++ " belongs to level " ++ toString expected ++
        " but was added to level " ++ toString actual
  | cycle hops => "Cycle detected in work unit graph: " ++ " -> ".intercalate hops
  | duplicateProducer label region material first second =>
      "'" ++ label ++ "' on " ++ orAll RegionId.render region ++ " material " ++
        orAll MaterialId.render material ++ " is computed by both '" ++ first ++ "' and '" ++
        second ++ "'"
  | missingPlacement unit present =>
      "Work unit '" ++ unit ++ "' declares " ++ present.render ++ " without " ++
        present.other.render
  | unresolved label binding consumer region material nearest =>
      "Could not find a producer of '" ++ label ++ "' (" ++ binding.render ++ ") on " ++
        orAll RegionId.render region ++ " material " ++ orAll MaterialId.render material ++
        " for '" ++ consumer ++ "'" ++
        (match nearest with
        | none => ""
        | some candidate => "; nearest candidate: " ++ candidate)
  | unknownRegion unit region =>
      "Work unit '" ++ unit ++ "' refers to unknown region " ++ region.render
  | levelOutOfRange unit level offset =>
      "Work unit '" ++ unit ++ "' on level " ++ toString level ++ " reaches level offset " ++
        toString offset ++ ", which does not exist"
  | settings reason => "Compile configuration error: " ++ reason
  | file path operation => "I/O " ++ operation ++ " failed: " ++ path

/-- The code under which an error is reported. -/
def code? : Error → Option String
  | arithmetic _ => none
  | duplicateRegion _ => some "tessera::grid::duplicate_region"
  | emptyRegion _ _ => some "tessera::grid::empty_region"
  | refinementRatio _ _ => some "tessera::grid::refinement_ratio"
  | levelMismatch _ _ _ => some "tessera::grid::level_mismatch"
  | cycle _ => some "tessera::task_graph::cycle"
  | duplicateProducer _ _ _ _ _ => some "tessera::task_graph::duplicate_producer"
  | missingPlacement _ _ => some "tessera::task_graph::missing_placement"
  | unresolved _ _ _ _ _ _ => some "tessera::task_graph::unresolved_dependency"
  | unknownRegion _ _ => some "tessera::task_graph::unknown_region"
  | levelOutOfRange _ _ _ => some "tessera::task_graph::level_out_of_range"
  | settings _ => some "tessera::task_graph::config"
  | file _ _ => some "tessera::task_graph::io"

/-- What to do about an error. -/
def hint? : Error → Option String
  | duplicateRegion _ => some "Region ids must be unique across every level of the grid"
  | refinementRatio _ _ => some "Every component of a refinement ratio must be at least 1"
  | cycle _ =>
      some "Each hop reads a new-store value computed by the next unit; break one of them"
  | duplicateProducer _ _ _ _ _ =>
      some "Declare the second access as a modify, or compute a differently named value"
  | missingPlacement _ _ => some "Bind both a region set and a material set, or neither"
  | unresolved _ _ _ _ _ _ =>
      some "Some unit sorted before the consumer must compute this value on that region"
  | file _ _ => some "Check that the configuration file exists and is readable"
  | arithmetic _ | emptyRegion _ _ | levelMismatch _ _ _ | unknownRegion _ _
  | levelOutOfRange _ _ _ | settings _ => none

end Error

/-- The outcome of arithmetic as the outcome of a larger computation. -/
def orArithmetic {α : Type} : Except Fault α → Except Error α
  | .ok value => .ok value
  | .error fault => .error (.arithmetic fault)

/-- An error together with what had been done before it. -/
structure Halted (σ : Type) where
  error : Error
  state : σ

end MeshTasks
