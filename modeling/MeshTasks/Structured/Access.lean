import MeshTasks.Structured.Mesh
import MeshTasks.Access.Basic

/-!
# Forms of accesses

Alternatives are written by name, in small letters with hyphens; a step to
another level is a record that holds the number of levels.
-/

namespace MeshTasks

/-- The value whose written name a datum gives. -/
def ofName? {α : Type} (values : List α) (written : α → String) (datum : Datum) : Option α :=
  datum.name?.bind fun name => values.find? fun value => decide (written value = name)

def Centering.written : Centering → String
  | cell => "cell"
  | node => "node"
  | face => "face"
  | reduction => "reduction"

instance : Structured Centering where
  toDatum centering := .text centering.written
  ofDatum? := ofName? [.cell, .node, .face, .reduction] Centering.written

instance : Structured Label where
  toDatum label := .record [("name", toDatum label.name), ("kind", toDatum label.centering)]
  ofDatum? datum :=
    match datum.fields? ["name", "kind"] with
    | some [name, kind] => do return ⟨← name.required?, ← kind.required?⟩
    | _ => none

def Binding.written : Binding → String
  | old => "old-store"
  | new => "new-store"
  | coarseOld => "coarse-old-store"
  | coarseNew => "coarse-new-store"
  | parentOld => "parent-old-store"
  | parentNew => "parent-new-store"

instance : Structured Binding where
  toDatum binding := .text binding.written
  ofDatum? := ofName? Binding.all Binding.written

instance : Structured StoreIndex where
  toDatum store := toDatum store.number
  ofDatum? datum := (ofDatum? datum).map StoreIndex.mk

/-- The map of six stores in the order of the slots. -/
def StoreMap.ofList? : List StoreIndex → Option StoreMap
  | [old, new, coarseOld, coarseNew, parentOld, parentNew] =>
      some ⟨old, new, coarseOld, coarseNew, parentOld, parentNew⟩
  | _ => none

instance : Structured StoreMap where
  toDatum map := .record [("stores", toDatum map.toList)]
  ofDatum? datum :=
    match datum.fields? ["stores"] with
    | some [stores] => do StoreMap.ofList? (← stores.required?)
    | _ => none

def Mode.written : Mode → String
  | requires => "requires"
  | modifies => "modifies"
  | computes => "computes"

instance : Structured Mode where
  toDatum mode := .text mode.written
  ofDatum? := ofName? [.requires, .modifies, .computes] Mode.written

def HaloShape.written : HaloShape → String
  | none => "none"
  | faceAdjacent => "face-adjacent"
  | cornerAdjacent => "corner-adjacent"
  | domainWide => "domain-wide"

instance : Structured HaloShape where
  toDatum shape := .text shape.written
  ofDatum? :=
    ofName? [.none, .faceAdjacent, .cornerAdjacent, .domainWide] HaloShape.written

instance : Structured Halo where
  toDatum halo := .record [("kind", toDatum halo.shape), ("extent", toDatum halo.width)]
  ofDatum? datum :=
    match datum.fields? ["kind", "extent"] with
    | some [kind, extent] => do return ⟨← kind.required?, ← extent.required?⟩
    | _ => none

/-- The number of levels that a step names. A step is the content of an
alternative, so a list does not give it. -/
def stepsOfDatum? : Datum → Option UInt32
  | .record fields => (Datum.fieldNamed fields "offset").required?
  | _ => none

instance : Structured Domain where
  toDatum
    | .regionBound => .text "region-bound"
    | .wholeDomain => .text "whole-domain"
    | .coarserLevel steps =>
        .record [("coarser-level", .record [("offset", toDatum steps)])]
    | .finerLevel steps => .record [("finer-level", .record [("offset", toDatum steps)])]
  ofDatum?
    | .record [("coarser-level", steps)] => (stepsOfDatum? steps).map .coarserLevel
    | .record [("finer-level", steps)] => (stepsOfDatum? steps).map .finerLevel
    | datum =>
        match datum.name? with
        | some "region-bound" => some .regionBound
        | some "whole-domain" => some .wholeDomain
        | _ => none

instance : Structured Access where
  toDatum access :=
    .record [("kind", toDatum access.mode), ("label", toDatum access.label),
      ("store", toDatum access.binding), ("materials", toDatum access.materials),
      ("regions", toDatum access.regions), ("domain", toDatum access.domain),
      ("ghost", toDatum access.halo)]
  ofDatum? datum :=
    match datum.fields?
        ["kind", "label", "store", "materials", "regions", "domain", "ghost"] with
    | some [kind, label, store, materials, regions, domain, ghost] => do
        return {
          mode := ← kind.required?
          label := ← label.required?
          binding := ← store.required?
          materials := ← materials.optional?
          regions := ← regions.optional?
          domain := ← domain.required?
          halo := ← ghost.required? }
    | _ => none

end MeshTasks
