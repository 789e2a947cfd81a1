import MeshTasks.WorkUnit

/-!
# Needs

A unit that consumes a label through a new-like binding needs every unit that
computes the label to stand before it. Units are named by their positions in the
list.
-/

namespace MeshTasks

/-- A label that a unit needs, and the unit that computes it. -/
structure Need where
  producer : Nat
  label : Label
deriving DecidableEq

/-- One step of a chain of needs. -/
structure Hop where
  consumer : Nat
  label : Label
  producer : Nat
deriving DecidableEq

/-- The positions of the units that compute a label. -/
def computersOf (units : List WorkUnit) (label : Label) : List Nat :=
  (List.range units.length).filter fun position =>
    match units[position]? with
    | none => false
    | some unit => unit.computesLabel label

/-- The labels that a unit must find computed, in the order of its accesses. -/
def WorkUnit.neededLabels (unit : WorkUnit) : List Label :=
  (unit.consumed.filter fun access => unit.isNewLike access.binding).map Access.label

/-- Everything that the unit at a position needs. -/
def needsOf (units : List WorkUnit) (position : Nat) : List Need :=
  match units[position]? with
  | none => []
  | some unit =>
      unit.neededLabels.flatMap fun label =>
        (computersOf units label).map fun producer => ⟨producer, label⟩

/-- Whether the unit at a position needs another one. -/
def needsUnit (units : List WorkUnit) (consumer producer : Nat) : Bool :=
  (needsOf units consumer).any fun need => decide (need.producer = producer)

/-- The name of the unit at a position. -/
def nameAt (units : List WorkUnit) (position : Nat) : String :=
  match units[position]? with
  | none => ""
  | some unit => unit.name

/-- A hop in words. -/
def Hop.render (units : List WorkUnit) (hop : Hop) : String :=
  "'" ++ nameAt units hop.consumer ++ "' requires '" ++ hop.label.name ++ "' from '" ++
    nameAt units hop.producer ++ "'"

end MeshTasks
