import MeshTasks.Space.Coord

/-!
# Halos

A halo is the rim of cells around a region that an access reads besides the
region itself.
-/

namespace MeshTasks

inductive HaloShape where
  /-- No rim. -/
  | none
  /-- The cells beyond the faces, without those beyond edges and corners. -/
  | faceAdjacent
  /-- All cells up to the width, edges and corners included. -/
  | cornerAdjacent
  /-- The whole level. -/
  | domainWide
deriving DecidableEq

/-- The name of a shape in descriptions of accesses. -/
def HaloShape.render : HaloShape → String
  | none => "None"
  | faceAdjacent => "FaceAdjacent"
  | cornerAdjacent => "CornerAdjacent"
  | domainWide => "DomainWide"

structure Halo where
  shape : HaloShape
  width : Coord
deriving DecidableEq

namespace Halo

def none : Halo := ⟨.none, .zero⟩

/-- Whether the halo reaches past the region it surrounds. -/
def isGhosted (halo : Halo) : Bool :=
  match halo.shape with
  | .none => false
  | .domainWide => true
  | .faceAdjacent | .cornerAdjacent => decide (Coord.zero < halo.width)

end Halo

end MeshTasks
