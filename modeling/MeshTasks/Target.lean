import MeshTasks.Graph.Item
import MeshTasks.WorkUnit

/-!
# Targets

The targets of an access are the regions that supply the cells it needs, each
with the box of these cells. A bound region needs its own cells and its halo;
carried to the level of the access, this is cut up among the regions of that
level and, on periodic axes, among the images of that level. What several bound
regions need from one supplier is joined in one box.
-/

namespace MeshTasks

/-- The cells needed from one region, seen at an offset. -/
structure Piece where
  region : RegionId
  box : Box
  offset : Vec
deriving DecidableEq

inductive Target where
  /-- A value of the whole domain. -/
  | global
  | part (piece : Piece)
deriving DecidableEq

namespace Target

def region? : Target → Option RegionId
  | global => none
  | part piece => some piece.region

def box? : Target → Option Box
  | global => none
  | part piece => some piece.box

def offset : Target → Vec
  | global => .zero
  | part piece => piece.offset

end Target

/-- The order of pieces: by region, then by offset. -/
def Piece.order (left right : Piece) : Ordering :=
  (compare (rank left.region) (rank right.region)).then (compare left.offset right.offset)

/-- Puts a piece into an ascending list; a piece of the same region and offset
grows to hold both. -/
def Piece.join (piece : Piece) : List Piece → List Piece
  | [] => [piece]
  | head :: tail =>
      match piece.order head with
      | .lt => piece :: head :: tail
      | .eq => { head with box := head.box.hull piece.box } :: tail
      | .gt => head :: join piece tail

/-- The pieces of a list in ascending order, one for each region and offset. -/
def joinPieces (pieces : List Piece) : List Piece :=
  pieces.foldl (fun joined piece => piece.join joined) []

/-- All regions of a level, whole. -/
def wholeLevel (level : Level) : List Piece :=
  level.regions.map fun region => ⟨region.id, region.box, .zero⟩

/-- The parts of a box that the regions of a level hold. -/
def piecesWithin (level : Level) (box : Box) (offset : Vec) : List Piece :=
  (level.selectOverlapping box).filterMap fun region =>
    (box.intersect? region.box).map fun cells => ⟨region.id, cells, offset⟩

/-- The parts of a box that the regions of a level and of its periodic images
hold. A box reaches the image at an offset where, moved back by the offset, it
reaches the level itself. -/
def piecesWithImages (level : Level) (box : Box) : Except Fault (List Piece) := do
  let shifts ← level.shifts
  let images ← shifts.mapM fun shift => do
    let back ← shift.neg
    let moved ← box.translate back
    return piecesWithin level moved shift
  return piecesWithin level box .zero ++ images.flatten

/-- The boxes that an access with a halo needs around a box, in a domain. -/
def Halo.boxes (halo : Halo) (domain box : Box) : Except Fault (List Box) :=
  match halo.shape with
  | .none => .ok [box]
  | .faceAdjacent => Axis.all.mapM fun axis => box.dilateAxis axis halo.width
  | .cornerAdjacent => do
      let dilated ← box.dilate halo.width
      return [dilated]
  | .domainWide => .ok [domain]

/-- Carries a box from a level to another that lies some steps away. -/
def carryBox (grid : Grid) (box : Box) (source target : Nat) (steps : Int) :
    Except Fault (Option Box) :=
  if steps = 0 then
    .ok (some box)
  else if steps < 0 then
    grid.coarsenBox box source target
  else
    grid.refineBox box source target

/-- What a halo around a region needs from a level some steps away. -/
def haloPieces (grid : Grid) (halo : Halo) (region : Region) (target : Level) (steps : Int) :
    Except Fault (List Piece) := do
  let domain :=
    match grid.level? region.level with
    | none => region.box
    | some level => level.domain
  let needed ← halo.boxes domain region.box
  let carried ← needed.mapM fun box => carryBox grid box region.level target.index steps
  let pieces ← (carried.filterMap id).mapM fun box =>
    if halo.isGhosted then
      piecesWithImages target box
    else
      .ok (piecesWithin target box .zero)
  return pieces.flatten

/-- What an access needs for one bound region. -/
def piecesOf (grid : Grid) (unit : WorkUnit) (access : Access) (region : Region) :
    Except Error (List Piece) :=
  let steps := access.domain.levelOffset
  match grid.levelAt? region.level steps with
  | none => .error (.levelOutOfRange unit.name region.level steps)
  | some target =>
      if access.domain = .wholeDomain then
        .ok (wholeLevel target)
      else if steps = 0 ∧ ¬access.halo.isGhosted then
        .ok [⟨region.id, region.box, .zero⟩]
      else
        orArithmetic (haloPieces grid access.halo region target steps)

/-- What an access needs for a bound region that must be on the grid. -/
def piecesFor (grid : Grid) (unit : WorkUnit) (access : Access) (id : RegionId) :
    Except Error (List Piece) :=
  match grid.region? id with
  | none => .error (.unknownRegion unit.name id)
  | some region => piecesOf grid unit access region

/-- The targets of an access of an item without regions: the level of its unit
if it asks for the whole domain, nothing if its unit is bound to regions that
other processes own, and otherwise the global value. -/
def targetsWithoutRegion (grid : Grid) (unit : WorkUnit) (access : Access) :
    Except Error (List Target) :=
  if access.domain = .wholeDomain then
    let position := (unit.level? grid).getD 0
    match grid.level? position with
    | none => .error (.levelOutOfRange unit.name position 0)
    | some level => .ok ((wholeLevel level).map .part)
  else if unit.isGlobal then
    .ok [.global]
  else
    .ok []

/-- The targets of an access of an item. -/
def targets (grid : Grid) (item : WorkItem) (unit : WorkUnit) (access : Access) :
    Except Error (List Target) :=
  if access.label.isReduction then
    .ok [.global]
  else if item.regions.isEmpty then
    targetsWithoutRegion grid unit access
  else do
    let pieces ← (item.regions.filter access.admits).mapM (piecesFor grid unit access)
    return (joinPieces pieces.flatten).map .part

end MeshTasks
