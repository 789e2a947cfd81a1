import MeshTasks.Proofs.FirstExecution

/-!
# The results that a lookup sees

A lookup on a region sees what is recorded for the region together with what is
recorded for the whole domain. Recording lets one unit compute the value of a
key, and compares keys one by one: the result of a region and the result of the
whole domain never meet. What a lookup sees is therefore computed by one unit
exactly when no two units divide it between the region and the whole domain.
-/

namespace MeshTasks

/-- The position of the unit whose item an entry is about. -/
def ProducerEntry.unit? (graph : TaskGraph) (entry : ProducerEntry) : Option Nat :=
  (graph.item? entry.item).bind WorkItem.unit?

namespace Blueprint

/-- The unit at a position leaves a value under a key as the result of one of
its items. -/
def Computes (built : Blueprint) (units : List WorkUnit) (position : Nat) (key : ValueKey) :
    Prop :=
  ∃ id item unit access, built.graph.item? id = some item ∧ item.unit? = some position ∧
    units[position]? = some unit ∧ access ∈ unit.produced ∧ access.mode = .computes ∧
      takesPart unit item access = true ∧ key ∈ producedKeys access item

/-- All results that a lookup sees under a key are those of one unit. -/
def SeesOne (built : Blueprint) (key : ValueKey) : Prop :=
  ∀ left ∈ built.index.visible key, ∀ right ∈ built.index.visible key,
    left.mode = .computes → right.mode = .computes →
      left.unit? built.graph = right.unit? built.graph

variable {grid : Grid} {settings : Settings} {placement : Placement} {units : List WorkUnit}
  {built : Blueprint} {key : ValueKey}

/-- What a unit computes is what the entries of results tell of it. -/
theorem computes_iff
    (builtOk : blueprint grid settings placement units = .ok built)
    {position : Nat} :
    built.Computes units position key ↔
      ∃ entry ∈ built.index.entriesAt key, entry.mode = .computes ∧
        entry.unit? built.graph = some position := by
  obtain ⟨items, _, rfl, _⟩ := blueprint_eq_ok_iff.mp builtOk
  constructor
  · rintro ⟨id, item, unit, access, itemAt, fromUnit, unitAt, produced, computes, takes, keyMember⟩
    have unitOf : item.unit?.bind (units[·]?) = some unit := by
      rw [fromUnit]
      exact unitAt
    refine ⟨⟨id, item.order, access.mode⟩, ProducerIndex.mem_entriesAt.mpr ?_, computes, ?_⟩
    · exact mem_allRecordings.mpr
        ⟨item, unit, access, itemAt, unitOf, produced, takes, keyMember, rfl, rfl⟩
    · rw [ProducerEntry.unit?, itemAt, Option.bind_some, fromUnit]
  · rintro ⟨entry, recorded, computes, ofUnit⟩
    rw [ProducerIndex.mem_entriesAt] at recorded
    obtain ⟨item, unit, access, made⟩ := mem_allRecordings.mp recorded
    rw [ProducerEntry.unit?, made.item_at, Option.bind_some] at ofUnit
    have unitAt : units[position]? = some unit := by
      rw [← made.unit_of, ofUnit, Option.bind_some]
    exact ⟨entry.item, item, unit, access, made.item_at, ofUnit, unitAt, made.produced,
      made.mode_eq.symm.trans computes, made.takes_part, made.key_mem⟩

/-- Recording lets one unit compute the value of a key. -/
theorem Computes.unique
    {first second : Nat}
    (builtOk : blueprint grid settings placement units = .ok built)
    (notReduction : key.label.isReduction = false)
    (byFirst : built.Computes units first key)
    (bySecond : built.Computes units second key) :
    first = second := by
  obtain ⟨left, leftRecorded, leftComputes, leftUnit⟩ := (computes_iff builtOk).mp byFirst
  obtain ⟨right, rightRecorded, rightComputes, rightUnit⟩ := (computes_iff builtOk).mp bySecond
  obtain ⟨items, _, rfl, agreed⟩ := blueprint_eq_ok_iff.mp builtOk
  rw [ProducerIndex.mem_entriesAt] at leftRecorded rightRecorded
  have sameUnit : left.unit? (.ofItems items) = right.unit? (.ofItems items) :=
    Recording.unit?_eq_of_computes agreed leftRecorded rightRecorded notReduction rfl
      leftComputes rightComputes
  rw [leftUnit, rightUnit] at sameUnit
  exact Option.some.inj sameUnit

/-- Every entry is about an item of a unit. -/
theorem exists_unit_of_mem_visible
    (builtOk : blueprint grid settings placement units = .ok built)
    {entry : ProducerEntry}
    (visible : entry ∈ built.index.visible key) :
    ∃ position, entry.unit? built.graph = some position := by
  obtain ⟨items, _, rfl, _⟩ := blueprint_eq_ok_iff.mp builtOk
  obtain ⟨recordedKey, recorded⟩ := ProducerIndex.exists_recording_of_mem_visible visible
  obtain ⟨item, unit, access, made⟩ := mem_allRecordings.mp recorded
  obtain ⟨position, fromUnit, _⟩ := Option.bind_eq_some_iff.mp made.unit_of
  refine ⟨position, ?_⟩
  rw [ProducerEntry.unit?, made.item_at, Option.bind_some, fromUnit]

/-- A unit has a result among those that a lookup sees if it computes the value
for the region or for the whole domain. -/
theorem exists_visible_iff
    (builtOk : blueprint grid settings placement units = .ok built)
    {position : Nat} :
    (∃ entry ∈ built.index.visible key, entry.mode = .computes ∧
        entry.unit? built.graph = some position) ↔
      built.Computes units position key ∨
        built.Computes units position { key with region := none } := by
  rw [computes_iff builtOk, computes_iff builtOk]
  simp only [ProducerIndex.mem_visible, ProducerIndex.mem_entriesAt, or_and_right, exists_or]

/-- After a build, each value that is no reduction is computed by one unit at
most under its key. The results that a lookup sees are those of one unit exactly
when no two units divide the value between them, one computing it for the region
and the other for the whole domain. -/
theorem seesOne_iff
    (builtOk : blueprint grid settings placement units = .ok built)
    (notReduction : key.label.isReduction = false) :
    (∀ first second, built.Computes units first key → built.Computes units second key →
      first = second) ∧
    (built.SeesOne key ↔
      ∀ within across, built.Computes units within key →
        built.Computes units across { key with region := none } → within = across) := by
  have notReductionAcross : ({ key with region := none } : ValueKey).label.isReduction = false :=
    notReduction
  refine ⟨fun first second => Computes.unique builtOk notReduction, ?_, ?_⟩
  · intro seesOne within across byRegion byDomain
    obtain ⟨left, leftVisible, leftComputes, leftUnit⟩ :=
      (exists_visible_iff builtOk).mpr (Or.inl byRegion)
    obtain ⟨right, rightVisible, rightComputes, rightUnit⟩ :=
      (exists_visible_iff builtOk).mpr (Or.inr byDomain)
    have sameUnit := seesOne left leftVisible right rightVisible leftComputes rightComputes
    rw [leftUnit, rightUnit] at sameUnit
    exact Option.some.inj sameUnit
  · intro undivided left leftVisible right rightVisible leftComputes rightComputes
    obtain ⟨first, leftUnit⟩ := exists_unit_of_mem_visible builtOk leftVisible
    obtain ⟨second, rightUnit⟩ := exists_unit_of_mem_visible builtOk rightVisible
    have byFirst := (exists_visible_iff builtOk).mp ⟨left, leftVisible, leftComputes, leftUnit⟩
    have bySecond :=
      (exists_visible_iff builtOk).mp ⟨right, rightVisible, rightComputes, rightUnit⟩
    rw [leftUnit, rightUnit, Option.some.injEq]
    rcases byFirst with firstWithin | firstAcross
    · rcases bySecond with secondWithin | secondAcross
      · exact firstWithin.unique builtOk notReduction secondWithin
      · exact undivided first second firstWithin secondAcross
    · rcases bySecond with secondWithin | secondAcross
      · exact (undivided second first secondWithin firstAcross).symm
      · exact firstAcross.unique builtOk notReductionAcross secondAcross

end Blueprint

namespace Row

/-- An access to the density of the whole domain. -/
def everywhere : Access := { Access.of density with domain := .wholeDomain }

/-- The densities of both cubes are computed one by one, and those of the whole
domain at once. -/
def computeBothWays : List WorkUnit := [
  (unit "advance" [⟨0⟩, ⟨1⟩]).computing (.of density),
  (unit "assemble" [⟨0⟩]).computing everywhere]

/-- The densities of the left cube, as a lookup knows them. -/
def leftDensity : ValueKey := ⟨density, some ⟨0⟩, some ⟨0⟩⟩

/-- What building some units gives where one process owns both cubes. -/
def built (units : List WorkUnit) : Blueprint :=
  builtUnder compiler.placement units

end Row

theorem seesOne_iff_row :
    blueprint Row.grid .standard Row.compiler.placement Row.readThenModify =
        .ok (Row.built Row.readThenModify) ∧
      Row.leftDensity.label.isReduction = false ∧
        (Row.built Row.readThenModify).Computes Row.readThenModify 0 Row.leftDensity ∧
          (Row.built Row.readThenModify).SeesOne Row.leftDensity := by
  have builtOk :
      blueprint Row.grid .standard Row.compiler.placement Row.readThenModify =
        .ok (Row.built Row.readThenModify) := rfl
  have noneAcross :
      ∀ entry ∈ (Row.built Row.readThenModify).index.entriesAt
          { Row.leftDensity with region := none }, entry.mode ≠ .computes := by
    decide
  refine ⟨builtOk, rfl, ?_, ?_⟩
  · exact ⟨0, _, _, _, rfl, rfl, rfl, List.mem_cons_self, rfl, rfl, by decide⟩
  · refine (Blueprint.seesOne_iff builtOk rfl).2.mpr fun _ _ _ byDomain => ?_
    obtain ⟨entry, recorded, computes, _⟩ := (Blueprint.computes_iff builtOk).mp byDomain
    exact absurd computes (noneAcross entry recorded)

/-- A density that two units compute, one for the region and one for the whole
domain. -/
theorem sees_two_row :
    blueprint Row.grid .standard Row.compiler.placement Row.computeBothWays =
        .ok (Row.built Row.computeBothWays) ∧
      Row.leftDensity.label.isReduction = false ∧
        ¬ (Row.built Row.computeBothWays).SeesOne Row.leftDensity := by
  refine ⟨rfl, rfl, fun seesOne => ?_⟩
  have sameUnit := seesOne ⟨0, 0, .computes⟩ (by decide) ⟨2, 1, .computes⟩ (by decide) rfl rfl
  cases sameUnit

end MeshTasks
