/-!
# Labels

A label names a value and says where on the grid the value sits.
-/

namespace MeshTasks

/-- Where the values of a label sit. A reduction is one value for the whole
computation; each region may contribute to it. -/
inductive Centering where
  | cell
  | node
  | face
  | reduction
deriving DecidableEq

/-- Position in the order in which labels of one name are listed. -/
def Centering.rank : Centering → Nat
  | cell => 0
  | node => 1
  | face => 2
  | reduction => 3

/-- Two labels are the same value only if both name and centering agree. -/
structure Label where
  name : String
  centering : Centering
deriving DecidableEq

namespace Label

def isReduction (label : Label) : Bool :=
  decide (label.centering = .reduction)

end Label

end MeshTasks
