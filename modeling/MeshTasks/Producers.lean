import MeshTasks.Graph.Basic
import MeshTasks.Error

/-!
# Producers

The producer index is the sequence of recordings of who produces what. A value
is known by label, region and material; values of the whole domain are recorded
without a region and can be seen from every region. Of several producers a
consumer takes the nearest before it.
-/

namespace MeshTasks

/-- What is produced or read: a label, on a region or everywhere, in a material
or in none. -/
structure ValueKey where
  label : Label
  region : Option RegionId
  material : Option MaterialId
deriving DecidableEq

structure ProducerEntry where
  item : Nat
  order : Nat
  mode : Mode
deriving DecidableEq

structure Recording where
  key : ValueKey
  entry : ProducerEntry
deriving DecidableEq

/-- The recordings, oldest first. -/
structure ProducerIndex where
  recordings : List Recording
deriving DecidableEq

/-- The material keys that an access touches on an item: its own materials, or
else those of the item, or else the one key of no material. Reductions follow
their own materials only, so that global and regional items meet in the same
key. -/
def materialKeys (access : Access) (item : WorkItem) : List (Option MaterialId) :=
  let subset :=
    if access.label.isReduction then access.materials else access.materials <|> item.materials
  match subset with
  | none => [none]
  | some materials =>
      if materials.isEmpty then [none] else materials.toList.map some

/-- The region keys under which an item produces a value. -/
def regionKeys (access : Access) (item : WorkItem) : List (Option RegionId) :=
  if access.isDomainWide ∨ item.regions.isEmpty then
    [none]
  else
    (item.regions.filter access.admits).map some

/-- The values that an access of an item produces. -/
def producedKeys (access : Access) (item : WorkItem) : List ValueKey :=
  (regionKeys access item).flatMap fun region =>
    (materialKeys access item).map fun material => ⟨access.label, region, material⟩

namespace ProducerIndex

def empty : ProducerIndex := ⟨[]⟩

instance : Inhabited ProducerIndex := ⟨empty⟩

/-- The entries recorded for a key, oldest first. -/
def entriesAt (index : ProducerIndex) (key : ValueKey) : List ProducerEntry :=
  (index.recordings.filter fun recording => decide (recording.key = key)).map Recording.entry

/-- The entries that a lookup sees: those of the region, then those of the whole
domain. -/
def visible (index : ProducerIndex) (key : ValueKey) : List ProducerEntry :=
  let regional :=
    match key.region with
    | none => []
    | some _ => index.entriesAt key
  regional ++ index.entriesAt { key with region := none }

/-- An entry by which another unit already computes the value of a key. -/
def clash? (index : ProducerIndex) (graph : TaskGraph) (producer : WorkItem) (access : Access)
    (key : ValueKey) : Option ProducerEntry :=
  if access.mode = .computes ∧ ¬access.label.isReduction then
    (index.entriesAt key).find? fun entry =>
      decide (entry.mode = .computes) &&
        decide ((graph.item? entry.item).bind WorkItem.unit? ≠ producer.unit?)
  else
    none

/-- Records one value of an item, unless another unit computes it already. -/
def recordKey (graph : TaskGraph) (id : Nat) (producer : WorkItem) (access : Access)
    (index : ProducerIndex) (key : ValueKey) : Except (Halted ProducerIndex) ProducerIndex :=
  match index.clash? graph producer access key with
  | some first =>
      let firstName :=
        match graph.item? first.item with
        | none => ""
        | some item => item.name
      .error ⟨.duplicateProducer access.label.name key.region key.material firstName
        producer.name, index⟩
  | none =>
      .ok ⟨index.recordings ++ [⟨key, ⟨id, producer.order, access.mode⟩⟩]⟩

/-- Records every value that an access of an item produces. What was recorded
before a clash stays. -/
def record (index : ProducerIndex) (graph : TaskGraph) (id : Nat) (access : Access) :
    Except (Halted ProducerIndex) ProducerIndex :=
  match graph.item? id with
  | none => .ok index
  | some producer =>
      (producedKeys access producer).foldlM (recordKey graph id producer access) index

/-- The nearest entry before an order; of several, the last one seen. -/
def findProducer? (index : ProducerIndex) (key : ValueKey) (order : Nat) :
    Option ProducerEntry :=
  ((index.visible key).filter fun entry => decide (entry.order < order)).foldl
    (fun best entry =>
      match best with
      | none => some entry
      | some held => if entry.order < held.order then some held else some entry)
    none

/-- All entries at the nearest order before an order. -/
def findAllProducers (index : ProducerIndex) (key : ValueKey) (order : Nat) :
    List ProducerEntry :=
  ((index.visible key).filter fun entry => decide (entry.order < order)).foldl
    (fun best entry =>
      match best with
      | [] => [entry]
      | held :: others =>
          if entry.order < held.order then
            held :: others
          else if entry.order = held.order then
            held :: others ++ [entry]
          else
            [entry])
    []

/-- The nearest entry at or after an order; of several, the first one seen. -/
def findFollowing? (index : ProducerIndex) (key : ValueKey) (order : Nat) :
    Option ProducerEntry :=
  ((index.visible key).filter fun entry => decide (order ≤ entry.order)).foldl
    (fun best entry =>
      match best with
      | none => some entry
      | some held => if entry.order < held.order then some entry else some held)
    none

/-- Whether a lookup sees any entry. -/
def produces (index : ProducerIndex) (key : ValueKey) : Bool :=
  !(index.visible key).isEmpty

/-- The keys that have an entry. -/
def keys (index : ProducerIndex) : List ValueKey :=
  (index.recordings.map Recording.key).eraseDups

def isEmpty (index : ProducerIndex) : Bool :=
  index.recordings.isEmpty

/-- The order past every order: looking before it finds the last producer of
all. -/
def lastOrder : Nat := 18446744073709551615

end ProducerIndex

end MeshTasks
