import MeshTasks.Schedule.Need

/-!
# Orders that meet needs

In an order that meets needs, each position stands after everything it needs.
The predicate goes through the order once and carries the positions seen so far;
which positions these are matters, in which order they were seen does not. Two
neighbors may change places when the second of them does not need the first.
-/

namespace MeshTasks

/-- Every position of a list finds what it needs among the positions that are
held and those that stand before it. -/
def NeedsMet (needs : Nat → List Need) : List Nat → List Nat → Prop
  | _, [] => True
  | held, position :: later =>
      (∀ need ∈ needs position, need.producer ∈ held) ∧
        NeedsMet needs (position :: held) later

namespace NeedsMet

variable {needs : Nat → List Need}

theorem mono
    {held more order : List Nat}
    (subset : ∀ position ∈ held, position ∈ more)
    (met : NeedsMet needs held order) :
    NeedsMet needs more order := by
  induction order generalizing held more with
  | nil => trivial
  | cons head tail inductionHypothesis =>
      obtain ⟨headMet, tailMet⟩ := met
      refine ⟨fun need member => subset _ (headMet need member), ?_⟩
      apply inductionHypothesis _ tailMet
      intro position member
      rcases List.mem_cons.mp member with same | inHeld
      · exact same ▸ List.mem_cons_self
      · exact List.mem_cons_of_mem head (subset position inHeld)

theorem append_iff {held first second : List Nat} :
    NeedsMet needs held (first ++ second) ↔
      NeedsMet needs held first ∧ NeedsMet needs (first ++ held) second := by
  induction first generalizing held with
  | nil => simp [NeedsMet]
  | cons head tail inductionHypothesis =>
      have sameHeld :
          ∀ position,
            position ∈ tail ++ head :: held ↔ position ∈ head :: tail ++ held := by
        intro position
        simp only [List.cons_append, List.mem_append, List.mem_cons, or_left_comm]
      have moved :
          NeedsMet needs (tail ++ head :: held) second ↔
            NeedsMet needs (head :: tail ++ held) second :=
        ⟨mono fun position => (sameHeld position).mp,
          mono fun position => (sameHeld position).mpr⟩
      simp only [List.cons_append, NeedsMet, inductionHypothesis, moved, and_assoc]

/-- Appending a position asks only for its own needs. -/
theorem concat
    {order : List Nat} {position : Nat}
    (met : NeedsMet needs [] order)
    (positionMet : ∀ need ∈ needs position, need.producer ∈ order) :
    NeedsMet needs [] (order ++ [position]) := by
  rw [append_iff, List.append_nil]
  exact ⟨met, positionMet, trivial⟩

/-- Whatever a position of the order needs stands before it. -/
theorem producer_mem_before
    {before after : List Nat} {position : Nat} {need : Need}
    (met : NeedsMet needs [] (before ++ position :: after))
    (needed : need ∈ needs position) :
    need.producer ∈ before := by
  have fromPosition := (append_iff.mp met).2
  rw [List.append_nil] at fromPosition
  exact fromPosition.1 need needed

private theorem swap
    {held later : List Nat} {first second : Nat}
    (met : NeedsMet needs held (first :: second :: later))
    (independent : ∀ need ∈ needs second, need.producer ≠ first) :
    NeedsMet needs held (second :: first :: later) := by
  obtain ⟨firstMet, secondMet, laterMet⟩ := met
  refine ⟨fun need member => ?_, fun need member => ?_, ?_⟩
  · rcases List.mem_cons.mp (secondMet need member) with same | inHeld
    · exact absurd same (independent need member)
    · exact inHeld
  · exact List.mem_cons_of_mem second (firstMet need member)
  · apply mono _ laterMet
    intro position member
    simp only [List.mem_cons] at member ⊢
    exact or_left_comm.mp member

/-- A position may move back past a stretch of positions that do not need it. -/
theorem move_back
    {held passed later : List Nat} {position : Nat}
    (met : NeedsMet needs held (position :: (passed ++ later)))
    (independent : ∀ other ∈ passed, ∀ need ∈ needs other, need.producer ≠ position) :
    NeedsMet needs held (passed ++ position :: later) := by
  induction passed generalizing held with
  | nil => exact met
  | cons head tail inductionHypothesis =>
      have swapped := swap met (independent head List.mem_cons_self)
      refine ⟨swapped.1, inductionHypothesis swapped.2 ?_⟩
      intro other member
      exact independent other (List.mem_cons_of_mem head member)

end NeedsMet

end MeshTasks
