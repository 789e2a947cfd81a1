import MeshTasks.Structured.WorkUnit

/-!
# Reading forms

A value is faithful to its form if reading the form gives the value back.
Numbers, texts and alternatives are; lists, optional values and sets are if what
they hold is, where an optional value must not take the form of nothing for a
value; and records are if their fields are. An access is therefore read back
whole. A unit is read back without its seat and its phase, which have no place
in its form.
-/

namespace MeshTasks

/-- Values that are read back from their forms. -/
class Faithful (α : Type) [Structured α] : Prop where
  read : ∀ value : α, ofDatum? (toDatum value) = some value

/-- Values whose forms are never that of nothing. -/
class HasContent (α : Type) [Structured α] : Prop where
  ne_nothing : ∀ value : α, toDatum value ≠ .nothing

section Fields

variable {α : Type} [Structured α] [Faithful α]

@[simp]
theorem Field.required?_given (value : α) :
    (Field.given (toDatum value)).required? = some value :=
  Faithful.read value

@[simp]
theorem Field.orDefault?_given (standard value : α) :
    (Field.given (toDatum value)).orDefault? standard = some value :=
  Faithful.read value

@[simp]
theorem Field.optional?_given [HasContent α] (value : Option α) :
    (Field.given (toDatum value)).optional? = some value := by
  cases value with
  | none => rfl
  | some value =>
      have content := HasContent.ne_nothing value
      show (Field.given (toDatum value)).optional? = some (some value)
      -- What has content is not read by the alternative for nothing.
      simp only [Field.optional?]
      exact congrArg (Option.map some) (Faithful.read value)

end Fields

/-! ## Numbers, texts and what holds others -/

private theorem Datum.below?_number {bound value : Nat} (below : value < bound) :
    (Datum.number value).below? bound = some value := by
  show (if 0 ≤ (value : Int) ∧ (value : Int) < bound then some (value : Int).toNat else none) = _
  rw [if_pos (by omega), Int.toNat_natCast]

instance : Faithful String := ⟨fun _ => rfl⟩

instance : Faithful UInt32 := ⟨fun value => by
  show ((Datum.number value.toNat).below? 4294967296).map UInt32.ofNat = some value
  rw [Datum.below?_number value.toNat_lt, Option.map_some, UInt32.ofNat_toNat]⟩

instance : Faithful UInt64 := ⟨fun value => by
  show ((Datum.number value.toNat).below? 18446744073709551616).map UInt64.ofNat = some value
  rw [Datum.below?_number value.toNat_lt, Option.map_some, UInt64.ofNat_toNat]⟩

instance : HasContent UInt64 := ⟨fun _ => nofun⟩

/-- A list is read by reading each of its values. -/
theorem ofDatum?_toDatum_list
    {α : Type} [Structured α]
    {copy : α → α}
    (reads : ∀ value, ofDatum? (toDatum value) = some (copy value))
    (values : List α) :
    ofDatum? (toDatum values) = some (values.map copy) := by
  show (values.map toDatum).mapM ofDatum? = some (values.map copy)
  induction values with
  | nil => rfl
  | cons head tail inductionHypothesis =>
      rw [List.map_cons, List.mapM_cons, reads, inductionHypothesis]
      rfl

section Holders

variable {α : Type} [Structured α] [Faithful α]

instance [HasContent α] : Faithful (Option α) := ⟨fun value => by
  cases value with
  | none => rfl
  | some value =>
      have content := HasContent.ne_nothing value
      show ofDatum? (toDatum value) = some (some value)
      simp only [ofDatum?]
      exact congrArg (Option.map some) (Faithful.read value)⟩

instance : Faithful (List α) := ⟨fun values => by
  rw [ofDatum?_toDatum_list Faithful.read, List.map_id']⟩

instance : HasContent (List α) := ⟨fun _ => nofun⟩

end Holders

/-! ## Sets -/

namespace OrderedSet

variable {α : Type} [Ranked α]

private theorem place_of_greatest
    {value : α} {values : List α}
    (greatest : ∀ member ∈ values, rank member < rank value) :
    place value values = values ++ [value] := by
  induction values with
  | nil => rfl
  | cons head tail inductionHypothesis =>
      have headBelow := greatest head List.mem_cons_self
      unfold place
      rw [if_neg (by omega), if_neg (by omega), inductionHypothesis fun member inTail =>
        greatest member (List.mem_cons_of_mem head inTail)]
      rfl

private theorem toList_foldl_insert
    {values : List α} {set : OrderedSet α}
    (ascending :
      (set.toList ++ values).Pairwise fun left right => rank left < rank right) :
    (values.foldl insert set).toList = set.toList ++ values := by
  induction values generalizing set with
  | nil => rw [List.foldl_nil, List.append_nil]
  | cons head tail inductionHypothesis =>
      have below := (List.pairwise_append.mp ascending).2.2
      have inserted : (set.insert head).toList = set.toList ++ [head] :=
        place_of_greatest fun member inSet => below member inSet head List.mem_cons_self
      have listed : (set.insert head).toList ++ tail = set.toList ++ head :: tail := by
        rw [inserted, List.append_assoc]
        rfl
      rw [List.foldl_cons, inductionHypothesis (listed ▸ ascending), listed]

/-- A set is made again from the list of its members. -/
theorem ofList_toList (set : OrderedSet α) : ofList set.toList = set :=
  OrderedSet.ext (toList_foldl_insert set.ascending)

end OrderedSet

section Sets

variable {α : Type} [Ranked α] [Structured α]

instance [Faithful α] : Faithful (OrderedSet α) := ⟨fun set => by
  show (ofDatum? (toDatum set.toList)).map OrderedSet.ofList = some set
  rw [Faithful.read, Option.map_some, OrderedSet.ofList_toList]⟩

instance : HasContent (OrderedSet α) := ⟨fun _ => nofun⟩

end Sets

/-! ## Identifiers, coordinates and stores -/

instance : Faithful RegionId := ⟨fun region => by
  show (ofDatum? (toDatum region.number)).map RegionId.mk = some region
  rw [Faithful.read, Option.map_some]⟩

instance : Faithful MaterialId := ⟨fun material => by
  show (ofDatum? (toDatum material.number)).map MaterialId.mk = some material
  rw [Faithful.read, Option.map_some]⟩

instance : Faithful StoreIndex := ⟨fun store => by
  show (ofDatum? (toDatum store.number)).map StoreIndex.mk = some store
  rw [Faithful.read, Option.map_some]⟩

instance : Faithful Coord := ⟨fun coord => by
  show Coord.ofInt? coord.val = some coord
  exact dif_pos ⟨coord.lower, coord.upper⟩⟩

instance : Faithful StoreMap := ⟨fun map => by
  show ((Field.given (toDatum map.toList)).required?.bind StoreMap.ofList?) = some map
  rw [Field.required?_given]
  rfl⟩

/-! ## Alternatives -/

instance : Faithful Centering := ⟨fun centering => by cases centering <;> rfl⟩

instance : Faithful Binding := ⟨fun binding => by cases binding <;> rfl⟩

instance : Faithful Mode := ⟨fun mode => by cases mode <;> rfl⟩

instance : Faithful HaloShape := ⟨fun shape => by cases shape <;> rfl⟩

instance : Faithful Policy := ⟨fun policy => by cases policy <;> rfl⟩

instance : Faithful Domain := ⟨fun domain => by
  cases domain with
  | regionBound => rfl
  | wholeDomain => rfl
  | coarserLevel steps =>
      show ((Field.given (toDatum steps)).required?.map Domain.coarserLevel) = _
      rw [Field.required?_given, Option.map_some]
  | finerLevel steps =>
      show ((Field.given (toDatum steps)).required?.map Domain.finerLevel) = _
      rw [Field.required?_given, Option.map_some]⟩

/-! ## Records -/

instance : Faithful Label := ⟨fun label => by
  show (do return ⟨← (Field.given (toDatum label.name)).required?,
    ← (Field.given (toDatum label.centering)).required?⟩) = some label
  simp⟩

instance : Faithful Halo := ⟨fun halo => by
  show (do return ⟨← (Field.given (toDatum halo.shape)).required?,
    ← (Field.given (toDatum halo.width)).required?⟩) = some halo
  simp⟩

instance : Faithful Access := ⟨fun access => by
  show (do return {
    mode := ← (Field.given (toDatum access.mode)).required?
    label := ← (Field.given (toDatum access.label)).required?
    binding := ← (Field.given (toDatum access.binding)).required?
    materials := ← (Field.given (toDatum access.materials)).optional?
    regions := ← (Field.given (toDatum access.regions)).optional?
    domain := ← (Field.given (toDatum access.domain)).required?
    halo := ← (Field.given (toDatum access.halo)).required? }) = some access
  simp⟩

/-- The unit as it was declared, before any sorting gave it a seat and a
phase. -/
def WorkUnit.declared (unit : WorkUnit) : WorkUnit :=
  { unit with seat := none, phase := none }

/-- Reading the form of a unit gives the unit as it was declared. -/
theorem WorkUnit.ofDatum?_toDatum (unit : WorkUnit) :
    ofDatum? (toDatum unit) = some unit.declared := by
  show (do return {
    name := ← (Field.given (toDatum unit.name)).required?
    policy := ← (Field.given (toDatum unit.policy)).required?
    requires := ← (Field.given (toDatum unit.requires)).required?
    modifies := ← (Field.given (toDatum unit.modifies)).required?
    computes := ← (Field.given (toDatum unit.computes)).required?
    regions := ← (Field.given (toDatum unit.regions)).optional?
    materials := ← (Field.given (toDatum unit.materials)).optional?
    pinned := ← (Field.given (toDatum unit.pinned)).orDefault? none
    stores := ← (Field.given (toDatum unit.stores)).orDefault? .standard
    seat := none
    phase := none }) = some unit.declared
  simp [declared]

end MeshTasks
