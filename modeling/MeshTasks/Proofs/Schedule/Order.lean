import Mathlib.Data.List.Basic
import MeshTasks.Proofs.Schedule.Seating
import MeshTasks.Proofs.Selection

/-!
# What a schedule promises

A unit depends on another if it consumes, through a binding to its new store, a
label that the other computes. In a schedule every unit stands once and behind
all that it depends on, and the synchronizing units are numbered as they stand.
Sorting puts the units in this order and writes nothing but seat and phase on
them.
-/

namespace MeshTasks

variable {units : List WorkUnit}

/-- The unit that a hop starts from consumes the label as a new value, and the
unit that it leads to computes it. -/
structure Hop.IsReal (units : List WorkUnit) (hop : Hop) : Prop where
  consumes : ∃ taker access, units[hop.consumer]? = some taker ∧ access ∈ taker.consumed ∧
    taker.isNewLike access.binding = true ∧ access.label = hop.label
  computes : ∃ maker access, units[hop.producer]? = some maker ∧ access ∈ maker.computes ∧
    access.label = hop.label

/-- One unit consumes a new value that another one computes. -/
def DependsOn (units : List WorkUnit) (consumer producer : Nat) : Prop :=
  ∃ label, Hop.IsReal units ⟨consumer, label, producer⟩

theorem mem_neededLabels {unit : WorkUnit} {label : Label} :
    label ∈ unit.neededLabels ↔
      ∃ access ∈ unit.consumed, unit.isNewLike access.binding = true ∧ access.label = label := by
  simp only [WorkUnit.neededLabels, List.mem_map, List.mem_filter, and_assoc]

private theorem mem_computersOf {label : Label} {position : Nat} :
    position ∈ computersOf units label ↔
      ∃ maker access, units[position]? = some maker ∧ access ∈ maker.computes ∧
        access.label = label := by
  simp only [computersOf, List.mem_filter, List.mem_range]
  cases unitAt : units[position]? with
  | none => simp
  | some maker =>
      have bound := (List.getElem?_eq_some_iff.mp unitAt).1
      simp [bound, WorkUnit.computesLabel]

theorem mem_needsOf_iff {position : Nat} {need : Need} :
    need ∈ needsOf units position ↔ Hop.IsReal units ⟨position, need.label, need.producer⟩ := by
  obtain ⟨producer, label⟩ := need
  constructor
  · intro needed
    cases unitAt : units[position]? with
    | none => simp [needsOf, unitAt] at needed
    | some taker =>
        simp only [needsOf, unitAt, List.mem_flatMap, List.mem_map, mem_neededLabels] at needed
        obtain ⟨_, ⟨access, consumed, newLike, rfl⟩, _, computer, same⟩ := needed
        cases same
        exact ⟨⟨taker, access, unitAt, consumed, newLike, rfl⟩, mem_computersOf.mp computer⟩
  · rintro ⟨⟨taker, access, takerAt, consumed, newLike, sameLabel⟩, computes⟩
    have takerAtPosition : units[position]? = some taker := takerAt
    simp only [needsOf, takerAtPosition, List.mem_flatMap, List.mem_map]
    exact ⟨label, mem_neededLabels.mpr ⟨access, consumed, newLike, sameLabel⟩, producer,
      mem_computersOf.mpr computes, rfl⟩

/-- In an order that meets needs, what a position needs stands before it. -/
private theorem NeedsMet.idxOf_lt
    {needs : Nat → List Need} {order : List Nat} {position : Nat} {need : Need}
    (met : NeedsMet needs [] order)
    (member : position ∈ order)
    (needed : need ∈ needs position) :
    order.idxOf need.producer < order.idxOf position := by
  obtain ⟨before, after, rfl, fresh⟩ := List.eq_append_cons_of_mem member
  have producerBefore := met.producer_mem_before needed
  have positionPlace : (before ++ position :: after).idxOf position = before.length := by
    rw [List.idxOf_append_of_notMem fresh, List.idxOf_cons_self, Nat.add_zero]
  rw [positionPlace, List.idxOf_append_of_mem producerBefore]
  exact List.idxOf_lt_length_of_mem producerBefore

theorem mem_of_schedule
    {order : List Nat} {position : Nat}
    (scheduled : schedule units = .ok order) :
    position ∈ order ↔ position < units.length := by
  rw [(schedule_spec scheduled).1.mem_iff, List.mem_range]

theorem lt_length_of_dependsOn
    {consumer producer : Nat}
    (depends : DependsOn units consumer producer) :
    consumer < units.length := by
  obtain ⟨_, ⟨_, _, takerAt, _⟩, _⟩ := depends
  exact (List.getElem?_eq_some_iff.mp takerAt).1

/-- In an order that meets the needs of units, whatever a unit depends on stands
before it. -/
theorem NeedsMet.idxOf_lt_of_dependsOn
    {order : List Nat} {consumer producer : Nat}
    (met : NeedsMet (needsOf units) [] order)
    (member : consumer ∈ order)
    (depends : DependsOn units consumer producer) :
    order.idxOf producer < order.idxOf consumer := by
  obtain ⟨label, real⟩ := depends
  have needed : (⟨producer, label⟩ : Need) ∈ needsOf units consumer := mem_needsOf_iff.mpr real
  exact met.idxOf_lt member needed

theorem idxOf_lt_of_dependsOn
    {order : List Nat} {consumer producer : Nat}
    (scheduled : schedule units = .ok order)
    (depends : DependsOn units consumer producer) :
    order.idxOf producer < order.idxOf consumer := by
  have inOrder := (mem_of_schedule scheduled).mpr (lt_length_of_dependsOn depends)
  exact (schedule_spec scheduled).2.idxOf_lt_of_dependsOn inOrder depends

theorem lt_length_of_isCollective
    {position : Nat}
    (collective : isCollective units position = true) :
    position < units.length := by
  by_contra outside
  have noUnit := List.getElem?_eq_none (Nat.le_of_not_lt outside)
  simp [isCollective, noUnit] at collective

theorem phaseOf?_eq_none
    {order : List Nat} {position : Nat}
    (other : isCollective units position = false) :
    phaseOf? units order position = none := by
  rw [phaseOf?, phases, List.lookup_eq_none_iff]
  intro pair member
  obtain ⟨_, collective⟩ := List.mem_filter.mp (List.fst_mem_of_mem_zipIdx member)
  rw [bne_iff_ne]
  rintro rfl
  simp [collective] at other

/-- A synchronizing unit has the number of those that stand before it. -/
private theorem phaseOf?_eq_some
    {order : List Nat} {position : Nat}
    (member : position ∈ order)
    (collective : isCollective units position = true) :
    phaseOf? units order position = some ((order.filter (isCollective units)).idxOf position) := by
  have kept := List.mem_filter.mpr ⟨member, collective⟩
  rw [phaseOf?, phases, lookup_zipIdx_of_mem 0 kept, Nat.zero_add]

private theorem map_phaseOf?
    {order : List Nat}
    (distinct : order.Nodup) :
    (order.filter (isCollective units)).map (phaseOf? units order) =
      (List.range (order.countP (isCollective units))).map some := by
  have keptDistinct := distinct.filter (isCollective units)
  rw [List.countP_eq_length_filter]
  apply List.ext_getElem (by simp)
  intro place bound _
  simp only [List.length_map] at bound
  obtain ⟨member, collective⟩ := List.mem_filter.mp (List.getElem_mem bound)
  simp only [List.getElem_map, List.getElem_range]
  rw [phaseOf?_eq_some member collective, keptDistinct.idxOf_getElem]

private theorem length_seatUnits
    {order : List Nat}
    (bounded : ∀ position ∈ order, position < units.length) :
    (seatUnits units order).length = order.length := by
  rw [seatUnits, List.filterMap_length_eq_length.mpr, List.length_zipIdx]
  rintro ⟨position, place⟩ member
  have inBounds := bounded position (List.fst_mem_of_mem_zipIdx member)
  simp [List.getElem?_eq_getElem inBounds]

/-- An order in which every unit stands once, behind all that it depends on, and
in which exactly the synchronizing units have phases, numbered from zero as they
stand. -/
structure IsSchedule (units : List WorkUnit) (order : List Nat) : Prop where
  perm : order.Perm (List.range units.length)
  computed_first : ∀ consumer producer, DependsOn units consumer producer →
    order.idxOf producer < order.idxOf consumer
  phase_isSome : ∀ position,
    (phaseOf? units order position).isSome = isCollective units position
  phases_ascend :
    (order.filter (isCollective units)).map (phaseOf? units order) =
      (List.range (order.countP (isCollective units))).map some

/-- Scheduling promises `IsSchedule`, and sorting puts the units in that order,
each with its place and its phase. -/
theorem isSchedule_of_schedule
    {order : List Nat}
    (scheduled : schedule units = .ok order) :
    IsSchedule units order ∧
      ∃ sorted, sortUnits units = .ok sorted ∧ sorted.length = units.length ∧
        ∀ seat position : Nat, order[seat]? = some position →
          ∃ unit : WorkUnit, units[position]? = some unit ∧
            sorted[seat]? =
              some { unit with seat := some seat, phase := phaseOf? units order position } := by
  obtain ⟨permutation, _⟩ := schedule_spec scheduled
  have bounded : ∀ position ∈ order, position < units.length :=
    fun position => (mem_of_schedule scheduled).mp
  refine ⟨?_, seatUnits units order, ?_, ?_, ?_⟩
  · refine ⟨permutation, fun _ _ => idxOf_lt_of_dependsOn scheduled, fun position => ?_, ?_⟩
    · cases collective : isCollective units position with
      | false => simp [phaseOf?_eq_none collective]
      | true =>
          have inOrder :=
            (mem_of_schedule scheduled).mpr (lt_length_of_isCollective collective)
          simp [phaseOf?_eq_some inOrder collective]
    · exact map_phaseOf? (permutation.nodup_iff.mpr List.nodup_range)
  · exact bind_eq_ok_iff.mpr ⟨order, scheduled, rfl⟩
  · rw [length_seatUnits bounded, permutation.length_eq, List.length_range]
  · intro seat position atSeat
    have inBounds := bounded position (List.mem_of_getElem? atSeat)
    refine ⟨units[position], List.getElem?_eq_getElem inBounds, ?_⟩
    simp [getElem?_seatUnits bounded, atSeat, List.getElem?_eq_getElem inBounds]

/-! ## Two collectives before one consumer -/

namespace Step

def speed : Label := ⟨"speed", .cell⟩

/-- The longest step that is still stable. -/
def limit : Label := ⟨"limit", .reduction⟩

def energy : Label := ⟨"energy", .reduction⟩

/-- Both collectives are declared before the unit that waits for them. -/
def plan : List WorkUnit := [
  (WorkUnit.named "limit" .synchronizing).computing (.of limit),
  (WorkUnit.named "measure" .perRegion).computing (.of speed),
  ((WorkUnit.named "sum" .synchronizing).requiring (.of speed)).computing (.of energy),
  ((WorkUnit.named "advance" .perRegion).requiring (.of limit)).requiring (.of energy)]

end Step

theorem isSchedule_step :
    schedule Step.plan = .ok [1, 0, 2, 3] ∧ IsSchedule Step.plan [1, 0, 2, 3] ∧
      ∃ sorted, sortUnits Step.plan = .ok sorted ∧ sorted.length = 4 ∧
        ∃ unit, Step.plan[2]? = some unit ∧
          sorted[2]? = some { unit with seat := some 2, phase := some 1 } := by
  have scheduled : schedule Step.plan = .ok [1, 0, 2, 3] := by decide
  obtain ⟨isSchedule, sorted, sortedOk, length, seats⟩ := isSchedule_of_schedule scheduled
  exact ⟨scheduled, isSchedule, sorted, sortedOk, length, seats 2 2 rfl⟩

end MeshTasks
