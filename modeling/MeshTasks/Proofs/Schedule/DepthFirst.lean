import Mathlib.Data.List.Nodup
import Mathlib.Data.List.Perm.Subperm
import MeshTasks.Proofs.Outcome
import MeshTasks.Proofs.Schedule.NeedsMet
import MeshTasks.Schedule.DepthFirst

/-!
# The depth-first order meets all needs

While positions are visited, the order built so far meets its needs, repeats
nothing and keeps off the trail of positions whose visit is not finished. A
trail repeats nothing either, so it is never longer than there are positions and
the fuel never runs out. When all positions have been visited the order lists
each of them once.
-/

namespace MeshTasks

variable {needs : Nat → List Need} {count : Nat}

/-- What holds of an order while the visits of some positions are unfinished. -/
structure Settled (needs : Nat → List Need) (count : Nat) (unfinished order : List Nat) :
    Prop where
  nodup : order.Nodup
  met : NeedsMet needs [] order
  apart : ∀ position ∈ order, position ∉ unfinished
  bounded : ∀ position ∈ order, position < count

/-- What a visit makes of the order it was given. -/
structure Extends (needs : Nat → List Need) (count : Nat) (unfinished order result : List Nat) :
    Prop where
  settled : Settled needs count unfinished result
  kept : ∀ position ∈ order, position ∈ result

private theorem forall_mem_concat
    {P : Nat → Prop} {positions : List Nat} {position : Nat}
    (all : ∀ other ∈ positions, P other)
    (last : P position) :
    ∀ other ∈ positions ++ [position], P other := by
  intro other member
  rcases List.mem_append.mp member with inside | atEnd
  · exact all other inside
  · rw [List.mem_singleton] at atEnd
    exact atEnd ▸ last

theorem nodup_concat
    {positions : List Nat} {position : Nat}
    (nodup : positions.Nodup)
    (fresh : position ∉ positions) :
    (positions ++ [position]).Nodup := by
  rw [List.nodup_append]
  refine ⟨nodup, List.nodup_singleton position, ?_⟩
  intro left leftMember right rightMember same
  rw [List.mem_singleton] at rightMember
  exact fresh (rightMember ▸ same ▸ leftMember)

/-- A position is appended when its visit ends. -/
private theorem Settled.concat
    {unfinished order : List Nat} {position : Nat}
    (settled : Settled needs count (unfinished ++ [position]) order)
    (positionBounded : position < count)
    (notUnfinished : position ∉ unfinished)
    (positionMet : ∀ need ∈ needs position, need.producer ∈ order) :
    Settled needs count unfinished (order ++ [position]) where
  nodup := by
    apply nodup_concat settled.nodup
    intro inOrder
    exact settled.apart position inOrder (List.mem_append_right unfinished List.mem_cons_self)
  met := settled.met.concat positionMet
  apart := by
    refine forall_mem_concat (P := fun other => other ∉ unfinished) ?_ notUnfinished
    intro other inOrder inUnfinished
    exact settled.apart other inOrder (List.mem_append_left _ inUnfinished)
  bounded := forall_mem_concat settled.bounded positionBounded

private theorem length_le_of_nodup_of_lt
    {positions : List Nat}
    (nodup : positions.Nodup)
    (bounded : ∀ position ∈ positions, position < count) :
    positions.length ≤ count := by
  have inRange : positions ⊆ List.range count := by
    intro position member
    exact List.mem_range.mpr (bounded position member)
  have length := (List.subperm_of_subset nodup inRange).length_le
  rwa [List.length_range] at length

/-- Steps that each extend a settled order, and bring in a position of their
own, do so together. -/
private theorem foldlM_extends
    {α : Type} (goal : α → Nat) {step : List Nat → α → Except (List Hop) (List Nat)}
    {unfinished order result : List Nat} {values : List α}
    (step_extends : ∀ value ∈ values, ∀ done next,
      Settled needs count unfinished done →
        step done value = .ok next →
          Extends needs count unfinished done next ∧ goal value ∈ next)
    (settled : Settled needs count unfinished order)
    (folded : values.foldlM step order = .ok result) :
    Extends needs count unfinished order result ∧ ∀ value ∈ values, goal value ∈ result := by
  induction values generalizing order with
  | nil =>
      cases folded
      exact ⟨⟨settled, fun _ member => member⟩, fun _ member => absurd member List.not_mem_nil⟩
  | cons head tail inductionHypothesis =>
      rw [List.foldlM_cons] at folded
      obtain ⟨next, stepped, foldedTail⟩ := bind_eq_ok_iff.mp folded
      obtain ⟨⟨nextSettled, nextKept⟩, headIn⟩ :=
        step_extends head List.mem_cons_self order next settled stepped
      obtain ⟨⟨resultSettled, resultKept⟩, tailIn⟩ :=
        inductionHypothesis
          (fun value member => step_extends value (List.mem_cons_of_mem head member))
          nextSettled foldedTail
      refine ⟨⟨resultSettled, fun other member => resultKept other (nextKept other member)⟩, ?_⟩
      intro value member
      rcases List.mem_cons.mp member with same | inTail
      · exact same ▸ resultKept _ headIn
      · exact tailIn value inTail

/-- A visit appends its position and everything that this needs, at any
depth. -/
theorem visit_extends
    (trail : List Hop)
    (needs_bounded : ∀ position, ∀ need ∈ needs position, need.producer < count)
    {fuel : Nat} {position : Nat} {order result : List Nat}
    (visited : visit needs fuel trail position order = .ok result)
    (settled : Settled needs count (trail.map Hop.consumer) order)
    (trailNodup : (trail.map Hop.consumer ++ [position]).Nodup)
    (trailBounded : ∀ other ∈ trail.map Hop.consumer ++ [position], other < count)
    (positionFresh : position ∉ order)
    (enough : count ≤ trail.length + fuel) :
    Extends needs count (trail.map Hop.consumer) order result ∧ position ∈ result := by
  induction fuel generalizing trail position order result with
  | zero =>
      have length := length_le_of_nodup_of_lt trailNodup trailBounded
      rw [List.length_append, List.length_map, List.length_singleton] at length
      omega
  | succ fuel inductionHypothesis =>
      unfold visit at visited
      obtain ⟨ready, folded, appended⟩ := bind_eq_ok_iff.mp visited
      have startSettled :
          Settled needs count (trail.map Hop.consumer ++ [position]) order := by
        refine ⟨settled.nodup, settled.met, fun other member => ?_, settled.bounded⟩
        intro onTrail
        rcases List.mem_append.mp onTrail with inTrail | atPosition
        · exact settled.apart other member inTrail
        · rw [List.mem_singleton] at atPosition
          exact positionFresh (atPosition ▸ member)
      have workedOff :
          Extends needs count (trail.map Hop.consumer ++ [position]) order ready ∧
            ∀ need ∈ needs position, need.producer ∈ ready := by
        refine foldlM_extends Need.producer ?_ startSettled folded
        intro need needed done next doneSettled stepped
        dsimp only at stepped
        by_cases alreadyDone : need.producer ∈ done
        · rw [if_pos alreadyDone] at stepped
          cases stepped
          exact ⟨⟨doneSettled, fun _ member => member⟩, alreadyDone⟩
        · rw [if_neg alreadyDone] at stepped
          by_cases loops : need.producer = position ∨ need.producer ∈ trail.map Hop.consumer
          · rw [if_pos loops] at stepped
            cases stepped
          · rw [if_neg loops] at stepped
            have offTrail : need.producer ∉ trail.map Hop.consumer ++ [position] := by
              rw [List.mem_append, List.mem_singleton]
              exact fun onTrail => loops onTrail.symm
            have consumers :
                (trail ++ [(⟨position, need.label, need.producer⟩ : Hop)]).map Hop.consumer =
                  trail.map Hop.consumer ++ [position] := by
              rw [List.map_append, List.map_singleton]
            rw [← consumers] at doneSettled offTrail trailNodup trailBounded ⊢
            refine inductionHypothesis _ stepped doneSettled (nodup_concat trailNodup offTrail)
              (forall_mem_concat trailBounded (needs_bounded position need needed)) alreadyDone ?_
            rw [List.length_append, List.length_singleton]
            omega
      obtain ⟨⟨readySettled, readyKept⟩, allReady⟩ := workedOff
      cases appended
      have positionOff : position ∉ trail.map Hop.consumer := by
        intro onTrail
        exact (List.nodup_append.mp trailNodup).2.2 position onTrail position
          List.mem_cons_self rfl
      have positionBounded :=
        trailBounded position (List.mem_append_right _ List.mem_cons_self)
      refine ⟨⟨readySettled.concat positionBounded positionOff allReady, fun other member => ?_⟩,
        List.mem_append_right ready List.mem_cons_self⟩
      exact List.mem_append_left _ (readyKept other member)

private theorem needsOf_bounded
    {units : List WorkUnit} {position : Nat} {need : Need}
    (needed : need ∈ needsOf units position) :
    need.producer < units.length := by
  unfold needsOf at needed
  cases unitAt : units[position]? with
  | none =>
      rw [unitAt] at needed
      exact absurd needed List.not_mem_nil
  | some unit =>
      rw [unitAt] at needed
      obtain ⟨label, _, fromLabel⟩ := List.mem_flatMap.mp needed
      obtain ⟨producer, computer, rfl⟩ := List.mem_map.mp fromLabel
      exact List.mem_range.mp (List.mem_filter.mp computer).1

/-- The depth-first order lists every position once, after everything it
needs. -/
theorem depthFirstOrder_spec
    {units : List WorkUnit} {order : List Nat}
    (ordered : depthFirstOrder units = .ok order) :
    order.Perm (List.range units.length) ∧ NeedsMet (needsOf units) [] order := by
  have started : Settled (needsOf units) units.length [] [] :=
    ⟨List.nodup_nil, trivial, fun _ _ => List.not_mem_nil,
      fun _ member => absurd member List.not_mem_nil⟩
  have total :
      Extends (needsOf units) units.length [] [] order ∧
        ∀ position ∈ List.range units.length, position ∈ order := by
    refine foldlM_extends id ?_ started ordered
    intro position inRange done next doneSettled stepped
    by_cases alreadyDone : position ∈ done
    · rw [if_pos alreadyDone] at stepped
      cases stepped
      exact ⟨⟨doneSettled, fun _ member => member⟩, alreadyDone⟩
    · rw [if_neg alreadyDone] at stepped
      refine visit_extends [] (fun _ _ => needsOf_bounded) stepped doneSettled
        (List.nodup_singleton position) ?_ alreadyDone (Nat.le_add_left _ _)
      intro other member
      rw [List.map_nil, List.nil_append, List.mem_singleton] at member
      exact member ▸ List.mem_range.mp inRange
  obtain ⟨⟨settled, _⟩, complete⟩ := total
  refine ⟨?_, settled.met⟩
  rw [List.perm_ext_iff_of_nodup settled.nodup List.nodup_range]
  intro position
  exact ⟨fun member => List.mem_range.mpr (settled.bounded position member), complete position⟩

end MeshTasks
