import MeshTasks.Structured.Datum
import MeshTasks.Mesh.Region

/-!
# Forms of the mesh

Coordinates and identifiers are numbers, sets are lists, and vectors, boxes and
regions are records.
-/

namespace MeshTasks

instance : Structured Coord where
  toDatum coord := .number coord.val
  ofDatum?
    | .number value => Coord.ofInt? value
    | _ => none

instance : Structured Vec where
  toDatum vec := .record [("x", toDatum vec.x), ("y", toDatum vec.y), ("z", toDatum vec.z)]
  ofDatum? datum :=
    match datum.fields? ["x", "y", "z"] with
    | some [x, y, z] => do return ⟨← x.required?, ← y.required?, ← z.required?⟩
    | _ => none

instance : Structured Box where
  toDatum box := .record [("low", toDatum box.low), ("high", toDatum box.high)]
  ofDatum? datum :=
    match datum.fields? ["low", "high"] with
    | some [low, high] => do return ⟨← low.required?, ← high.required?⟩
    | _ => none

instance : Structured RegionId where
  toDatum region := toDatum region.number
  ofDatum? datum := (ofDatum? datum).map RegionId.mk

instance : Structured MaterialId where
  toDatum material := toDatum material.number
  ofDatum? datum := (ofDatum? datum).map MaterialId.mk

instance {α : Type} [Ranked α] [Structured α] : Structured (OrderedSet α) where
  toDatum set := toDatum set.toList
  ofDatum? datum := (ofDatum? datum).map OrderedSet.ofList

/-- The position of a level, a number of sixty-four bits. -/
def levelOfDatum? (datum : Datum) : Option Nat :=
  datum.below? 18446744073709551616

instance : Structured Region where
  toDatum region :=
    .record [("id", toDatum region.id), ("level", .number region.level),
      ("range", toDatum region.box)]
  ofDatum? datum :=
    match datum.fields? ["id", "level", "range"] with
    | some [id, .given level, box] => do
        return ⟨← id.required?, ← levelOfDatum? level, ← box.required?⟩
    | _ => none

end MeshTasks
