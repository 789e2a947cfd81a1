import MeshTasks.Schedule.Need

/-!
# The depth-first order

Positions are visited in ascending order; whatever a position needs is visited
before the position itself is appended to the order. The positions that are
being visited form a trail of hops. A need that leads back to the trail closes a
loop, and the loop is then the result.
-/

namespace MeshTasks

/-- The part of a trail that starts at a position, closed by a hop back to that
position. -/
def closeLoop (trail : List Hop) (closing : Hop) : List Hop :=
  (trail.dropWhile fun hop => decide (hop.consumer ≠ closing.producer)) ++ [closing]

/-- Appends a position to an order after everything it needs. The trail holds
the hops that led here, oldest first. The fuel bounds the length of the trail;
trails do not repeat positions, so the number of positions is enough. -/
def visit (needs : Nat → List Need) :
    Nat → List Hop → Nat → List Nat → Except (List Hop) (List Nat)
  | 0, _, _, order => .ok order
  | fuel + 1, trail, position, order => do
      let ready ← (needs position).foldlM
        (fun (done : List Nat) need =>
          let hop : Hop := ⟨position, need.label, need.producer⟩
          if need.producer ∈ done then
            .ok done
          else if need.producer = position ∨ need.producer ∈ trail.map Hop.consumer then
            .error (closeLoop trail hop)
          else
            visit needs fuel (trail ++ [hop]) need.producer done)
        order
      return ready ++ [position]

/-- Visits the positions of a list that the order does not hold yet. -/
def visitAll (needs : Nat → List Need) (fuel : Nat) (positions : List Nat) (order : List Nat) :
    Except (List Hop) (List Nat) :=
  positions.foldlM
    (fun (done : List Nat) position =>
      if position ∈ done then .ok done else visit needs fuel [] position done)
    order

/-- The depth-first order of some units, or the first loop found among their
needs. -/
def depthFirstOrder (units : List WorkUnit) : Except (List Hop) (List Nat) :=
  visitAll (needsOf units) units.length (List.range units.length) []

end MeshTasks
