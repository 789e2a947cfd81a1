import Mathlib.Data.List.Basic
import Mathlib.Data.List.Flatten
import Mathlib.Data.List.Nodup

/-!
# Selections from lists

What is selected from a list that was made value by value can be made from the
selected values.
-/

namespace MeshTasks

section

variable {α β : Type}

/-- Results that pass a test exactly if the value they come from does are
selected with it. -/
theorem filter_flatMap_of_iff
    {make : α → List β} {test : β → Bool} {admits : α → Bool} {values : List α}
    (same : ∀ value ∈ values, ∀ result ∈ make value, test result = admits value) :
    (values.flatMap make).filter test = (values.filter admits).flatMap make := by
  induction values with
  | nil => rfl
  | cons head tail inductionHypothesis =>
      have headSame := same head List.mem_cons_self
      have tailSame := inductionHypothesis fun value member =>
        same value (List.mem_cons_of_mem head member)
      rw [List.flatMap_cons, List.filter_append, tailSame]
      by_cases admitted : admits head = true
      · have all : (make head).filter test = make head := by
          rw [List.filter_eq_self]
          intro result member
          rw [headSame result member]
          exact admitted
        rw [all, List.filter_cons_of_pos admitted, List.flatMap_cons]
      · have nothing : (make head).filter test = [] := by
          rw [List.filter_eq_nil_iff]
          intro result member
          rw [headSame result member]
          exact admitted
        rw [nothing, List.nil_append, List.filter_cons_of_neg admitted]

/-- Values that nothing is made of may be left out. -/
theorem flatMap_filter_of_nil
    {make : α → List β} {admits : α → Bool} {values : List α}
    (nothing : ∀ value ∈ values, admits value = false → make value = []) :
    (values.filter admits).flatMap make = values.flatMap make := by
  induction values with
  | nil => rfl
  | cons head tail inductionHypothesis =>
      have tailSame := inductionHypothesis fun value member =>
        nothing value (List.mem_cons_of_mem head member)
      by_cases admitted : admits head = true
      · rw [List.filter_cons_of_pos admitted, List.flatMap_cons, List.flatMap_cons, tailSame]
      · have leavesNothing := nothing head List.mem_cons_self (Bool.eq_false_iff.mpr admitted)
        rw [List.filter_cons_of_neg admitted, List.flatMap_cons, leavesNothing, tailSame,
          List.nil_append]

/-- Where nothing is made of the values but of one, all that is made is made of
that one. -/
theorem flatMap_filter_eq_of_nodup
    [DecidableEq α] {make : α → List β} {values : List α} {chosen : α}
    (distinct : values.Nodup) :
    (values.filter fun value => decide (value = chosen)).flatMap make =
      if chosen ∈ values then make chosen else [] := by
  by_cases member : chosen ∈ values
  · rw [if_pos member]
    have once := List.count_eq_one_of_mem distinct member
    have chosenOnly : (values.filter fun value => decide (value = chosen)) = [chosen] := by
      rw [← List.replicate_one, ← once, ← List.filter_beq]
      rfl
    rw [chosenOnly, List.flatMap_singleton]
  · rw [if_neg member, List.filter_eq_nil_iff.mpr, List.flatMap_nil]
    intro value inValues isChosen
    exact member (of_decide_eq_true isChosen ▸ inValues)

/-- A search may start after values that it does not look for. -/
theorem filter_dropWhile_of_not
    {before test : α → Bool} {values : List α}
    (unsought : ∀ value ∈ values, test value = true → before value = false) :
    (values.dropWhile before).filter test = values.filter test := by
  induction values with
  | nil => rfl
  | cons head tail inductionHypothesis =>
      by_cases isBefore : before head = true
      · have notSought : ¬ test head = true := fun sought => by
          rw [unsought head List.mem_cons_self sought] at isBefore
          cases isBefore
        rw [List.dropWhile_cons_of_pos isBefore, List.filter_cons_of_neg notSought]
        exact inductionHypothesis fun value member =>
          unsought value (List.mem_cons_of_mem head member)
      · rw [List.dropWhile_cons_of_neg isBefore]

/-- A search may end at the first value that is out of reach, if all later ones
are. -/
theorem filter_takeWhile_of_pairwise
    {within test : α → Bool} {values : List α}
    (inFront : values.Pairwise fun left right => within right = true → within left = true)
    (reached : ∀ value ∈ values, test value = true → within value = true) :
    (values.takeWhile within).filter test = values.filter test := by
  induction values with
  | nil => rfl
  | cons head tail inductionHypothesis =>
      obtain ⟨headInFront, tailInFront⟩ := List.pairwise_cons.mp inFront
      by_cases isWithin : within head = true
      · have tailSame := inductionHypothesis tailInFront fun value member =>
          reached value (List.mem_cons_of_mem head member)
        rw [List.takeWhile_cons_of_pos isWithin, List.filter_cons, List.filter_cons, tailSame]
      · have nothing : (head :: tail).filter test = [] := by
          rw [List.filter_eq_nil_iff]
          intro value member sought
          have valueWithin := reached value member sought
          rcases List.mem_cons.mp member with rfl | inTail
          · exact isWithin valueWithin
          · exact isWithin (headInFront value inTail valueWithin)
        rw [List.takeWhile_cons_of_neg isWithin, nothing]
        rfl

/-- A result that each value makes at most once is made as often as there are
values that make it. -/
theorem count_flatMap_of_nodup
    [DecidableEq β] {make : α → List β} {values : List α}
    (distinct : ∀ value ∈ values, (make value).Nodup)
    (result : β) :
    (values.flatMap make).count result =
      values.countP fun value => decide (result ∈ make value) := by
  induction values with
  | nil => rfl
  | cons head tail inductionHypothesis =>
      have tailSame := inductionHypothesis fun value member =>
        distinct value (List.mem_cons_of_mem head member)
      rw [List.flatMap_cons, List.count_append, tailSame, List.countP_cons,
        (distinct head List.mem_cons_self).count, Nat.add_comm]
      simp only [decide_eq_true_eq]

theorem map_getElem?_range (values : List α) :
    (List.range values.length).map (values[·]?) = values.map some := by
  apply List.ext_getElem?
  intro place
  rw [List.getElem?_map, List.getElem?_map]
  by_cases bound : place < values.length
  · rw [List.getElem?_range bound, List.getElem?_eq_getElem bound]
    exact congrArg some (List.getElem?_eq_getElem bound)
  · rw [List.getElem?_eq_none (Nat.le_of_not_lt bound), List.getElem?_eq_none]
    · rfl
    · rw [List.length_range]
      exact Nat.le_of_not_lt bound

theorem lookup_zipIdx_of_mem
    [BEq α] [LawfulBEq α] {value : α} {values : List α} (start : Nat)
    (member : value ∈ values) :
    (values.zipIdx start).lookup value = some (start + values.idxOf value) := by
  induction values generalizing start with
  | nil => cases member
  | cons head tail inductionHypothesis =>
      rw [List.zipIdx_cons, List.lookup_cons, List.idxOf_cons]
      by_cases same : head = value
      · subst same
        rw [beq_self_eq_true, cond_true]
        rfl
      · have inTail := (List.mem_cons.mp member).resolve_left (Ne.symm same)
        rw [inductionHypothesis (start + 1) inTail, beq_false_of_ne same,
          beq_false_of_ne (Ne.symm same), cond_false]
        dsimp only
        rw [Nat.add_right_comm, Nat.add_assoc]

end

end MeshTasks
