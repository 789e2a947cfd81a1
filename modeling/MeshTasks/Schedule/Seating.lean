import MeshTasks.Schedule.Need

/-!
# Seating of collectives

A synchronizing unit holds up every process, so it is moved towards its use: it
takes the seat directly in front of the first later unit that needs it.
Synchronizing units are moved one after the other, in the order in which they
stood at first.
-/

namespace MeshTasks

/-- Puts a position in front of the first element of a list that needs it; if
there is none, in front of the whole list. -/
def seatBefore (needsIt : Nat → Bool) (position : Nat) (later : List Nat) : List Nat :=
  match later.span fun other => !needsIt other with
  | (_, []) => position :: later
  | (passed, first :: rest) => passed ++ position :: first :: rest

/-- Moves a position of an order back to the first later position that needs
it. -/
def reseat (needsIt : Nat → Bool) (position : Nat) : List Nat → List Nat
  | [] => []
  | head :: later =>
      if head = position then
        seatBefore needsIt position later
      else
        head :: reseat needsIt position later

/-- Whether the unit at a position is a synchronizing one. -/
def isCollective (units : List WorkUnit) (position : Nat) : Bool :=
  match units[position]? with
  | none => false
  | some unit => unit.isSynchronizing

/-- Moves every synchronizing unit of an order. -/
def seatCollectives (units : List WorkUnit) (order : List Nat) : List Nat :=
  (order.filter (isCollective units)).foldl
    (fun seated position => reseat (fun other => needsUnit units other position) position seated)
    order

/-- The phases of the synchronizing units, numbered in the order in which they
stand. -/
def phases (units : List WorkUnit) (order : List Nat) : List (Nat × Nat) :=
  (order.filter (isCollective units)).zipIdx

/-- The phase of the unit at a position. -/
def phaseOf? (units : List WorkUnit) (order : List Nat) (position : Nat) : Option Nat :=
  (phases units order).lookup position

end MeshTasks
