/-!
# Bindings and stores

Every access is bound to a generation of its value: the old or the new one of
its own level, of the next coarser level or of an enclosing computation. A store
map says which physical store serves each binding; executing a graph again
changes only store maps.
-/

namespace MeshTasks

inductive Binding where
  | old
  | new
  | coarseOld
  | coarseNew
  | parentOld
  | parentNew
deriving DecidableEq

namespace Binding

/-- The bindings in the order of their slots. -/
def all : List Binding := [old, new, coarseOld, coarseNew, parentOld, parentNew]

/-- The place of a binding in a store map. -/
def slot : Binding → Nat
  | old => 0
  | new => 1
  | coarseOld => 2
  | coarseNew => 3
  | parentOld => 4
  | parentNew => 5

/-- The name of a binding in descriptions of accesses and in messages. -/
def render : Binding → String
  | old => "OldStore"
  | new => "NewStore"
  | coarseOld => "CoarseOldStore"
  | coarseNew => "CoarseNewStore"
  | parentOld => "ParentOldStore"
  | parentNew => "ParentNewStore"

end Binding

/-- A physical store. -/
structure StoreIndex where
  number : UInt32
deriving DecidableEq

/-- The physical store that serves each binding. -/
structure StoreMap where
  old : StoreIndex
  new : StoreIndex
  coarseOld : StoreIndex
  coarseNew : StoreIndex
  parentOld : StoreIndex
  parentNew : StoreIndex
deriving DecidableEq

namespace StoreMap

/-- Store 0 serves the old generations, store 1 the new ones. -/
def standard : StoreMap := ⟨⟨0⟩, ⟨1⟩, ⟨0⟩, ⟨1⟩, ⟨0⟩, ⟨1⟩⟩

instance : Inhabited StoreMap := ⟨standard⟩

def get (map : StoreMap) : Binding → StoreIndex
  | .old => map.old
  | .new => map.new
  | .coarseOld => map.coarseOld
  | .coarseNew => map.coarseNew
  | .parentOld => map.parentOld
  | .parentNew => map.parentNew

/-- The map with one binding pointed at another store. -/
def set (map : StoreMap) (binding : Binding) (store : StoreIndex) : StoreMap :=
  match binding with
  | .old => { map with old := store }
  | .new => { map with new := store }
  | .coarseOld => { map with coarseOld := store }
  | .coarseNew => { map with coarseNew := store }
  | .parentOld => { map with parentOld := store }
  | .parentNew => { map with parentNew := store }

/-- The stores in the order of the slots. -/
def toList (map : StoreMap) : List StoreIndex :=
  Binding.all.map map.get

/-- Whether a binding is served by the store that new values go to. -/
def isNewLike (map : StoreMap) (binding : Binding) : Bool :=
  decide (map.get binding = map.new)

theorem get_set (map : StoreMap) (binding other : Binding) (store : StoreIndex) :
    (map.set binding store).get other = if other = binding then store else map.get other := by
  cases binding <;> cases other <;> rfl

end StoreMap

end MeshTasks
