import MeshTasks.Id
import MeshTasks.Access.Label
import MeshTasks.Access.Binding
import MeshTasks.Access.Halo

/-!
# Accesses

An access says which labelled value a unit touches, how, in which generation, on
which materials and regions, over which part of the grid and with which halo.
-/

namespace MeshTasks

/-- What an access does to the value. A modification reads the value and writes
it in place. -/
inductive Mode where
  | requires
  | modifies
  | computes
deriving DecidableEq

/-- The name of a mode in descriptions of accesses. -/
def Mode.render : Mode → String
  | requires => "Requires"
  | modifies => "Modifies"
  | computes => "Computes"

/-- The part of the grid an access refers to. -/
inductive Domain where
  /-- The regions the item is bound to. -/
  | regionBound
  /-- The level that many steps coarser. -/
  | coarserLevel (steps : UInt32)
  /-- The level that many steps finer. -/
  | finerLevel (steps : UInt32)
  /-- Every region of the level. -/
  | wholeDomain
deriving DecidableEq

namespace Domain

/-- The number of levels upwards: negative to coarser levels, positive to finer
ones. -/
def levelOffset : Domain → Int
  | coarserLevel steps => -(steps.toNat : Int)
  | finerLevel steps => steps.toNat
  | regionBound => 0
  | wholeDomain => 0

/-- The name of a domain in descriptions of accesses. -/
def render : Domain → String
  | regionBound => "RegionBound"
  | coarserLevel steps => "CoarserLevel \x7b offset: " ++ toString steps.toNat ++ " \x7d"
  | finerLevel steps => "FinerLevel \x7b offset: " ++ toString steps.toNat ++ " \x7d"
  | wholeDomain => "WholeDomain"

end Domain

structure Access where
  mode : Mode
  label : Label
  binding : Binding
  /-- Explicit materials; without them the access follows its item. -/
  materials : Option MaterialSubset
  /-- The regions of the item that the access is limited to. -/
  regions : Option RegionSet
  domain : Domain
  halo : Halo
deriving DecidableEq

namespace Access

/-- A read of the new value of a label on the bound regions, without a halo. -/
def of (label : Label) : Access where
  mode := .requires
  label := label
  binding := .new
  materials := none
  regions := none
  domain := .regionBound
  halo := .none

/-- Whether the value is one for the whole domain rather than one for each
region. -/
def isDomainWide (access : Access) : Bool :=
  access.label.isReduction || decide (access.domain = .wholeDomain)

/-- Whether the access applies to a region. -/
def admits (access : Access) (region : RegionId) : Bool :=
  match access.regions with
  | none => true
  | some regions => regions.contains region

/-- Mode and label, then in parentheses the binding, the domain unless it is the
bound regions, and the halo if it reaches out. -/
def render (access : Access) : String :=
  let domain :=
    if access.domain = .regionBound then "" else ", " ++ access.domain.render
  let halo :=
    if access.halo.isGhosted then
      ", " ++ access.halo.shape.render ++ " x" ++ toString access.halo.width.val
    else
      ""
  access.mode.render ++ " " ++ access.label.name ++ " (" ++ access.binding.render ++ domain ++
    halo ++ ")"

end Access

end MeshTasks
