import MeshTasks.Schedule.DepthFirst
import MeshTasks.Schedule.Seating

/-!
# The schedule of units

The schedule is the depth-first order with its collectives seated. Sorting puts
the units in this order and writes seat and phase on each.
-/

namespace MeshTasks

/-- The positions of the units in the order in which they are to run. -/
def schedule (units : List WorkUnit) : Except Error (List Nat) :=
  match depthFirstOrder units with
  | .error loop => .error (.cycle (loop.map (Hop.render units)))
  | .ok order => .ok (seatCollectives units order)

/-- The units in a given order, with their seats and phases. -/
def seatUnits (units : List WorkUnit) (order : List Nat) : List WorkUnit :=
  order.zipIdx.filterMap fun (position, seat) =>
    units[position]?.map fun unit =>
      { unit with seat := some seat, phase := phaseOf? units order position }

/-- The units sorted so that every new value is computed before it is
consumed. -/
def sortUnits (units : List WorkUnit) : Except Error (List WorkUnit) := do
  let order ← schedule units
  return seatUnits units order

end MeshTasks
