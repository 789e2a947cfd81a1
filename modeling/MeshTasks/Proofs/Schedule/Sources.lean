import Mathlib.Data.List.Induction
import MeshTasks.Proofs.Schedule.Seats

/-!
# Which value a reader finds

A reader finds the value that the last unit before it has left behind. Seating a
collective may change who that is, since collectives are moved without regard to
modifications: one that reads or modifies a value may pass others that do. This
happens only where one of the units concerned with the value stood between a
collective among them and the first user of that collective. Where none did, the
units concerned keep their order, and with it each reader keeps the value that
it found depth first.
-/

namespace MeshTasks

variable {units : List WorkUnit}

/-- Whether the unit at a position computes or modifies a label. -/
def leavesLabel (units : List WorkUnit) (label : Label) (position : Nat) : Bool :=
  match units[position]? with
  | none => false
  | some unit => unit.producesLabel label

private theorem lt_length_of_leavesLabel
    {label : Label} {position : Nat}
    (leaves : leavesLabel units label position = true) :
    position < units.length := by
  by_contra outside
  have noUnit := List.getElem?_eq_none (Nat.le_of_not_lt outside)
  simp [leavesLabel, noUnit] at leaves

/-- The last unit before a reader, in an order, that computes or modifies a
label. -/
def sourceBefore? (units : List WorkUnit) (order : List Nat) (label : Label) (reader : Nat) :
    Option Nat :=
  ((order.takeWhile fun position => decide (position ≠ reader)).filter
    (leavesLabel units label)).getLast?

/-- Whether a unit is a given reader of a label, or computes or modifies the
label. -/
def concernedWith (units : List WorkUnit) (label : Label) (reader position : Nat) : Bool :=
  decide (position = reader) || leavesLabel units label position

/-- Depth first, the collectives of some units that have users are followed by
the others of these units only at or behind one of their users. -/
def Unpassed (units : List WorkUnit) (order : List Nat) (concerned : Nat → Bool) : Prop :=
  ∀ collective other user, isCollective units collective = true →
    concerned collective = true → concerned other = true → DependsOn units user collective →
      order.idxOf collective < order.idxOf other →
        ∃ first, DependsOn units first collective ∧ order.idxOf first ≤ order.idxOf other

private theorem filter_takeWhile_concerned (label : Label) (reader : Nat) (order : List Nat) :
    ((order.filter (concernedWith units label reader)).takeWhile
        fun position => decide (position ≠ reader)).filter (leavesLabel units label) =
      (order.takeWhile fun position => decide (position ≠ reader)).filter
        (leavesLabel units label) := by
  induction order with
  | nil => rfl
  | cons head tail inductionHypothesis =>
      by_cases atReader : head = reader
      · simp [concernedWith, atReader]
      · cases leaves : leavesLabel units label head with
        | false => simpa [concernedWith, atReader, leaves] using inductionHypothesis
        | true => simpa [concernedWith, atReader, leaves] using inductionHypothesis

/-- Units of which no collective passes another stand to each other as they did
depth first. -/
private theorem filter_moveAll_of_unpassed
    {order done waiting : List Nat} {concerned : Nat → Bool}
    (nodup : order.Nodup)
    (complete : ∀ position < units.length, position ∈ order)
    (met : NeedsMet (needsOf units) [] order)
    (unpassed : Unpassed units order concerned)
    (turns : order.filter (isCollective units) = done ++ waiting) :
    (moveAll units done order).filter concerned = order.filter concerned := by
  induction done using List.reverseRecOn generalizing waiting with
  | nil => rfl
  | append_singleton done collective inductionHypothesis =>
      rw [List.append_assoc, List.singleton_append] at turns
      have soFar := inductionHypothesis turns
      rw [moveAll, List.foldl_append, List.foldl_cons, List.foldl_nil, ← moveAll]
      by_cases concernsIt : concerned collective = true
      · obtain ⟨member, synchronizes⟩ :
            collective ∈ order ∧ isCollective units collective = true := by
          rw [← List.mem_filter, turns]
          simp
        have reachedPerm : (moveAll units done order).Perm order := perm_moveAll done order
        obtain ⟨before, passed, rest, split, moved, _, unneeded, stops⟩ :=
          @moveToUse_eq units _ _ (reachedPerm.mem_iff.mpr member)
        have reachedNodup := reachedPerm.nodup_iff.mpr nodup
        have passedOver : ∀ other ∈ passed, ¬concerned other = true := by
          intro other inPassed concernsOther
          obtain ⟨next, nextDepends⟩ : ∃ next, DependsOn units next collective := by
            rcases stops with ⟨rfl, _⟩ | ⟨next, _, _, nextDepends⟩
            · cases inPassed
            · exact ⟨next, nextDepends⟩
          have behind : order.idxOf collective < order.idxOf other := by
            rw [← idxOf_lt_iff_of_filter_eq soFar concernsIt concernsOther, split]
            exact idxOf_lt_of_mem_back (split ▸ reachedNodup) (List.mem_append_left rest inPassed)
          obtain ⟨user, depends, notLater⟩ :=
            unpassed collective other next synchronizes concernsIt concernsOther nextDepends behind
          have userBehind := met.idxOf_lt_of_dependsOn
            (complete user (lt_length_of_dependsOn depends)) depends
          have asBehind := Nat.le_of_lt userBehind
          have reachedBehind :=
            (idxOf_lt_at_turn_iff nodup turns (Nat.le_refl _) asBehind).mpr userBehind
          have reachedOrder := idxOf_lt_at_turn_iff nodup turns (Nat.le_of_lt behind) asBehind
          rw [split] at reachedNodup reachedBehind reachedOrder
          exact not_mem_passed reachedNodup unneeded depends reachedBehind (by omega) inPassed
        rw [moved, ← soFar, split]
        simp [List.filter_cons_of_pos concernsIt, List.filter_eq_nil_iff.mpr passedOver]
      · rw [filter_moveToUse (Bool.eq_false_iff.mpr concernsIt), soFar]

/-- Where no unit concerned with a value stands, depth first, between a
collective among them and the first user of that collective, seating the
collectives leaves a reader the source that it had. -/
theorem source_unchanged_of_unpassed
    {order : List Nat} {label : Label} {reader : Nat}
    (ordered : depthFirstOrder units = .ok order)
    (unpassed : Unpassed units order (concernedWith units label reader)) :
    ∃ seated, schedule units = .ok seated ∧
      sourceBefore? units seated label reader = sourceBefore? units order label reader := by
  obtain ⟨permutation, met⟩ := depthFirstOrder_spec ordered
  have nodup : order.Nodup := permutation.nodup_iff.mpr List.nodup_range
  have complete : ∀ position < units.length, position ∈ order :=
    fun position bound => permutation.mem_iff.mpr (List.mem_range.mpr bound)
  have scheduled : schedule units = .ok (seatCollectives units order) := by
    rw [schedule, ordered]
  have sameView :
      (seatCollectives units order).filter (concernedWith units label reader) =
        order.filter (concernedWith units label reader) :=
    filter_moveAll_of_unpassed nodup complete met unpassed (List.append_nil _).symm
  refine ⟨_, scheduled, ?_⟩
  rw [sourceBefore?, ← filter_takeWhile_concerned, sameView, filter_takeWhile_concerned,
    sourceBefore?]

theorem source_unchanged_of_unpassed_step :
    depthFirstOrder Step.plan = .ok [0, 1, 2, 3] ∧
      Unpassed Step.plan [0, 1, 2, 3] (concernedWith Step.plan Step.limit 3) ∧
        schedule Step.plan = .ok [1, 0, 2, 3] ∧
          sourceBefore? Step.plan [1, 0, 2, 3] Step.limit 3 =
            sourceBefore? Step.plan [0, 1, 2, 3] Step.limit 3 := by
  have ordered : depthFirstOrder Step.plan = .ok [0, 1, 2, 3] := by decide
  have unpassed : Unpassed Step.plan [0, 1, 2, 3] (concernedWith Step.plan Step.limit 3) := by
    intro collective other user synchronizes concernsIt concernsOther _ behind
    have amongAll : ∀ collective < 4, ∀ other < 4,
        (isCollective Step.plan collective = true ∧
          concernedWith Step.plan Step.limit 3 collective = true) ∧
            concernedWith Step.plan Step.limit 3 other = true ∧
              [0, 1, 2, 3].idxOf collective < [0, 1, 2, 3].idxOf other →
                needsUnit Step.plan other collective = true := by
      decide
    have otherBound : other < 4 := by
      rcases Bool.or_eq_true_iff.mp concernsOther with atReader | leaves
      · have same := of_decide_eq_true atReader
        omega
      · exact lt_length_of_leavesLabel leaves
    have needed := amongAll collective (lt_length_of_isCollective synchronizes) other otherBound
      ⟨⟨synchronizes, concernsIt⟩, concernsOther, behind⟩
    exact ⟨other, needsUnit_iff.mp needed, Nat.le_refl _⟩
  obtain ⟨seated, scheduled, same⟩ := source_unchanged_of_unpassed ordered unpassed
  have computed : schedule Step.plan = .ok [1, 0, 2, 3] := by decide
  rw [computed] at scheduled
  cases scheduled
  exact ⟨ordered, unpassed, computed, same⟩

/-! ## A collective that is passed by a modification -/

namespace Damping

/-- The speed is summed up before it is damped, and the sum is not used until
the end. -/
def plan : List WorkUnit := [
  (WorkUnit.named "measure" .perRegion).computing (.of Step.speed),
  ((WorkUnit.named "sum" .synchronizing).requiring (.of Step.speed)).computing (.of Step.energy),
  (WorkUnit.named "damp" .perRegion).modifying (.of Step.speed),
  (WorkUnit.named "report" .perRegion).requiring (.of Step.energy)]

end Damping

/-- Depth first the sum reads the speed as measured, once seated it reads the
speed as damped. -/
theorem source_changed_damping :
    depthFirstOrder Damping.plan = .ok [0, 1, 2, 3] ∧ schedule Damping.plan = .ok [0, 2, 1, 3] ∧
      (∃ sum, Damping.plan[1]? = some sum ∧ Step.speed ∈ sum.neededLabels) ∧
        sourceBefore? Damping.plan [0, 1, 2, 3] Step.speed 1 = some 0 ∧
          sourceBefore? Damping.plan [0, 2, 1, 3] Step.speed 1 = some 2 := by
  refine ⟨by decide, by decide, ⟨_, rfl, by decide⟩, by decide, by decide⟩

end MeshTasks
