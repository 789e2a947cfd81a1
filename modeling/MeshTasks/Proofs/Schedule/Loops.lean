import Mathlib.Data.List.Chain
import Mathlib.Logic.Relation
import MeshTasks.Proofs.Schedule.Order

/-!
# Loops among units

Units that depend on each other in a loop cannot be sorted, and all others can.
The trail of a depth-first visit is a chain of hops without repetition; a need
that leads back to the trail closes the part of it that starts there, and this
part is the loop that is reported.
-/

namespace MeshTasks

/-- Every hop of a list starts where the one before it led. -/
def Linked : List Hop → Prop :=
  List.IsChain fun earlier later => earlier.producer = later.consumer

/-- A closed chain of hops through different units: each hop leads to the start
of the next, and the last one to the start of the first. -/
structure IsLoop (units : List WorkUnit) (loop : List Hop) : Prop where
  ne_nil : loop ≠ []
  real : ∀ hop ∈ loop, hop.IsReal units
  distinct : (loop.map Hop.consumer).Nodup
  closed : ∀ place < loop.length,
    loop[place]?.map Hop.producer = loop[(place + 1) % loop.length]?.map Hop.consumer

/-- The hops by which a visit has come to a position. -/
structure Trail (needs : Nat → List Need) (trail : List Hop) (position : Nat) : Prop where
  needed : ∀ hop ∈ trail, ⟨hop.producer, hop.label⟩ ∈ needs hop.consumer
  linked : ∀ hop : Hop, hop.consumer = position → Linked (trail ++ [hop])
  distinct : (trail.map Hop.consumer ++ [position]).Nodup

namespace Trail

variable {needs : Nat → List Need} {trail : List Hop} {position : Nat}

theorem nil (position : Nat) : Trail needs [] position where
  needed := by simp
  linked := by simp [Linked]
  distinct := by simp

/-- A trail goes on to a position that it has not met. -/
private theorem concat
    {need : Need}
    (leads : Trail needs trail position)
    (needed : need ∈ needs position)
    (fresh : need.producer ∉ trail.map Hop.consumer ++ [position]) :
    Trail needs (trail ++ [⟨position, need.label, need.producer⟩]) need.producer where
  needed := by
    intro hop member
    rcases List.mem_append.mp member with inTrail | atEnd
    · exact leads.needed hop inTrail
    · rw [List.mem_singleton.mp atEnd]
      exact needed
  linked := by
    intro hop startsThere
    have before := leads.linked ⟨position, need.label, need.producer⟩ rfl
    rw [Linked, List.append_assoc, List.singleton_append, List.isChain_append_cons_cons]
    exact ⟨before, startsThere.symm, List.isChain_singleton hop⟩
  distinct := by
    rw [List.map_append, List.map_singleton]
    exact nodup_concat leads.distinct fresh

end Trail

section

variable {units : List WorkUnit} {trail loop : List Hop} {position : Nat}

/-- A closing hop closes the part of the trail that starts where it leads. -/
private theorem closeLoop_spec
    {closing : Hop}
    (startsHere : closing.consumer = position)
    (meets : closing.producer ∈ trail.map Hop.consumer ++ [position]) :
    closeLoop trail closing <:+ trail ++ [closing] ∧
      (closeLoop trail closing)[0]?.map Hop.consumer = some closing.producer := by
  let elsewhere : Hop → Bool := fun hop => decide (hop.consumer ≠ closing.producer)
  have closeEq : closeLoop trail closing = trail.dropWhile elsewhere ++ [closing] := rfl
  constructor
  · obtain ⟨passed, whole⟩ := List.dropWhile_suffix (l := trail) elsewhere
    exact ⟨passed, by rw [closeEq, ← List.append_assoc, whole]⟩
  · cases rest : trail.dropWhile elsewhere with
    | nil =>
        -- Nothing of the trail is left, so the closing hop leads back to where it starts.
        have passed := List.dropWhile_eq_nil_iff.mp rest
        have itself : closing.producer = position := by
          rcases List.mem_append.mp meets with onTrail | atPosition
          · obtain ⟨hop, member, same⟩ := List.mem_map.mp onTrail
            exact absurd same (of_decide_eq_true (passed hop member))
          · exact List.mem_singleton.mp atPosition
        simp [closeEq, rest, startsHere, itself]
    | cons first others =>
        have stopped := List.head?_dropWhile_not elsewhere trail
        rw [rest] at stopped
        have startsThere : first.consumer = closing.producer := by simpa [elsewhere] using stopped
        simp [closeEq, rest, startsThere]

/-- A chain of hops through different units is a loop if its last hop leads to
its first. -/
private theorem isLoop_of_linked
    {before : List Hop} {last : Hop}
    (real : ∀ hop ∈ before ++ [last], hop.IsReal units)
    (distinct : ((before ++ [last]).map Hop.consumer).Nodup)
    (linked : Linked (before ++ [last]))
    (closed : (before ++ [last])[0]?.map Hop.consumer = some last.producer) :
    IsLoop units (before ++ [last]) where
  ne_nil := by simp
  real := real
  distinct := distinct
  closed := by
    intro place bound
    have length : (before ++ [last]).length = before.length + 1 := by simp
    by_cases isLast : place = before.length
    · have wraps : (place + 1) % (before ++ [last]).length = 0 := by simp [isLast]
      rw [wraps, closed, isLast]
      simp
    · have next : place + 1 < (before ++ [last]).length := by omega
      rw [Nat.mod_eq_of_lt next, List.getElem?_eq_getElem bound, List.getElem?_eq_getElem next]
      exact congrArg some (List.isChain_iff_getElem.mp linked place next)

private theorem isLoop_closeLoop
    {need : Need}
    (leads : Trail (needsOf units) trail position)
    (needed : need ∈ needsOf units position)
    (meets : need.producer ∈ trail.map Hop.consumer ++ [position]) :
    IsLoop units (closeLoop trail ⟨position, need.label, need.producer⟩) := by
  let closing : Hop := ⟨position, need.label, need.producer⟩
  have startsHere : closing.consumer = position := rfl
  obtain ⟨isSuffix, closed⟩ := closeLoop_spec startsHere meets
  have allNeeded : ∀ hop ∈ closeLoop trail closing,
      (⟨hop.producer, hop.label⟩ : Need) ∈ needsOf units hop.consumer := by
    intro hop member
    rcases List.mem_append.mp (isSuffix.subset member) with onTrail | atEnd
    · exact leads.needed hop onTrail
    · rw [List.mem_singleton.mp atEnd]
      exact needed
  have distinct : ((trail ++ [closing]).map Hop.consumer).Nodup := by
    rw [List.map_append, List.map_singleton]
    exact leads.distinct
  exact isLoop_of_linked (fun hop member => mem_needsOf_iff.mp (allNeeded hop member))
    ((isSuffix.map Hop.consumer).sublist.nodup distinct)
    ((leads.linked closing startsHere).suffix isSuffix) closed

/-- A visit that fails has closed a loop. -/
theorem isLoop_of_visit
    {fuel : Nat} {order : List Nat}
    (leads : Trail (needsOf units) trail position)
    (failed : visit (needsOf units) fuel trail position order = .error loop) :
    IsLoop units loop := by
  induction fuel generalizing trail position order with
  | zero => cases failed
  | succ fuel inductionHypothesis =>
      rw [visit, bind_pure_eq_error_iff] at failed
      obtain ⟨need, needed, done, stepFailed⟩ := exists_error_of_foldlM failed
      dsimp only at stepFailed
      have meets_iff :
          need.producer ∈ trail.map Hop.consumer ++ [position] ↔
            need.producer = position ∨ need.producer ∈ trail.map Hop.consumer := by
        rw [List.mem_append, List.mem_singleton, or_comm]
      by_cases alreadyDone : need.producer ∈ done
      · rw [if_pos alreadyDone] at stepFailed
        cases stepFailed
      · rw [if_neg alreadyDone] at stepFailed
        by_cases meets : need.producer = position ∨ need.producer ∈ trail.map Hop.consumer
        · rw [if_pos meets] at stepFailed
          cases stepFailed
          exact isLoop_closeLoop leads needed (meets_iff.mpr meets)
        · rw [if_neg meets] at stepFailed
          exact inductionHypothesis (leads.concat needed (mt meets_iff.mp meets)) stepFailed

private theorem isLoop_of_depthFirstOrder
    (failed : depthFirstOrder units = .error loop) :
    IsLoop units loop := by
  obtain ⟨position, _, done, stepFailed⟩ := exists_error_of_foldlM failed
  by_cases alreadyDone : position ∈ done
  · rw [if_pos alreadyDone] at stepFailed
    cases stepFailed
  · rw [if_neg alreadyDone] at stepFailed
    exact isLoop_of_visit (Trail.nil position) stepFailed

theorem sortUnits_eq_error_iff
    {error : Error} :
    sortUnits units = .error error ↔
      ∃ loop, depthFirstOrder units = .error loop ∧
        error = .cycle (loop.map (Hop.render units)) := by
  rw [sortUnits, bind_pure_eq_error_iff, schedule]
  cases depthFirstOrder units with
  | error loop => simp [eq_comm]
  | ok order => simp

/-- By induction along the loop, its first unit depends on every unit that a hop
leads to. -/
theorem transGen_of_isLoop
    (isLoop : IsLoop units loop)
    {first : Hop}
    (firstAt : loop[0]? = some first)
    {place : Nat} {hop : Hop}
    (hopAt : loop[place]? = some hop) :
    Relation.TransGen (DependsOn units) first.consumer hop.producer := by
  have step : DependsOn units hop.consumer hop.producer :=
    ⟨hop.label, isLoop.real hop (List.mem_of_getElem? hopAt)⟩
  induction place generalizing hop with
  | zero =>
      rw [firstAt] at hopAt
      cases hopAt
      exact .single step
  | succ place inductionHypothesis =>
      have bound := (List.getElem?_eq_some_iff.mp hopAt).1
      have before := List.getElem?_eq_getElem (Nat.lt_of_succ_lt bound)
      have links := isLoop.closed place (Nat.lt_of_succ_lt bound)
      rw [Nat.mod_eq_of_lt bound, hopAt, before] at links
      have toHop := inductionHypothesis before
        ⟨_, isLoop.real _ (List.mem_of_getElem? before)⟩
      rw [Option.some.inj links] at toHop
      exact toHop.tail step

/-- The first unit of a loop depends on itself at the end. -/
private theorem exists_transGen_of_isLoop
    (isLoop : IsLoop units loop) :
    ∃ position, Relation.TransGen (DependsOn units) position position := by
  obtain ⟨first, others, loopEq⟩ := List.exists_cons_of_ne_nil isLoop.ne_nil
  have firstAt : loop[0]? = some first := by simp [loopEq]
  have last : others.length < loop.length := by simp [loopEq]
  have around := transGen_of_isLoop isLoop firstAt (List.getElem?_eq_getElem last)
  have closed := isLoop.closed others.length last
  have wraps : (others.length + 1) % loop.length = 0 := by simp [loopEq]
  rw [wraps, firstAt, List.getElem?_eq_getElem last] at closed
  rw [Option.some.inj closed] at around
  exact ⟨first.consumer, around⟩

/-- In a schedule a unit stands behind all that it depends on through others. -/
private theorem idxOf_lt_of_transGen
    {order : List Nat}
    (scheduled : schedule units = .ok order)
    {consumer producer : Nat}
    (depends : Relation.TransGen (DependsOn units) consumer producer) :
    order.idxOf producer < order.idxOf consumer := by
  induction depends with
  | single step => exact idxOf_lt_of_dependsOn scheduled step
  | tail _ step inductionHypothesis =>
      exact Nat.lt_trans (idxOf_lt_of_dependsOn scheduled step) inductionHypothesis

/-- Sorting fails with a cycle exactly when some unit depends on itself,
directly or through others. It does not fail in any other way, and the chain
that it then tells is that of a loop. -/
theorem sortUnits_cycle_spec (units : List WorkUnit) :
    ((∃ chain, sortUnits units = .error (.cycle chain)) ↔
      ∃ position, Relation.TransGen (DependsOn units) position position) ∧
    ∀ error, sortUnits units = .error error →
      ∃ loop, IsLoop units loop ∧ error = .cycle (loop.map (Hop.render units)) := by
  have told : ∀ error, sortUnits units = .error error →
      ∃ loop, IsLoop units loop ∧ error = .cycle (loop.map (Hop.render units)) := by
    intro error failed
    obtain ⟨loop, visited, errorEq⟩ := sortUnits_eq_error_iff.mp failed
    exact ⟨loop, isLoop_of_depthFirstOrder visited, errorEq⟩
  refine ⟨⟨?_, ?_⟩, told⟩
  · rintro ⟨chain, failed⟩
    obtain ⟨loop, isLoop, _⟩ := told _ failed
    exact exists_transGen_of_isLoop isLoop
  · rintro ⟨position, circle⟩
    cases sorted : sortUnits units with
    | ok ordered =>
        obtain ⟨order, scheduled, _⟩ := bind_eq_ok_iff.mp sorted
        exact absurd (idxOf_lt_of_transGen scheduled circle) (Nat.lt_irrefl _)
    | error error =>
        obtain ⟨loop, _, rfl⟩ := told error sorted
        exact ⟨_, rfl⟩

end

/-! ## Three units in a circle -/

namespace Circle

def flux : Label := ⟨"flux", .face⟩

def slope : Label := ⟨"slope", .cell⟩

def density : Label := ⟨"density", .cell⟩

/-- The first unit leads into the circle and is no part of it. -/
def plan : List WorkUnit := [
  (WorkUnit.named "report" .perRegion).requiring (.of flux),
  ((WorkUnit.named "balance" .perRegion).requiring (.of slope)).computing (.of flux),
  ((WorkUnit.named "limit" .perRegion).requiring (.of density)).computing (.of slope),
  ((WorkUnit.named "advance" .perRegion).requiring (.of flux)).computing (.of density)]

def chain : List String := [
  "'balance' requires 'slope' from 'limit'",
  "'limit' requires 'density' from 'advance'",
  "'advance' requires 'flux' from 'balance'"]

end Circle

theorem sortUnits_cycle_circle :
    sortUnits Circle.plan = .error (.cycle Circle.chain) ∧
      (∃ position, Relation.TransGen (DependsOn Circle.plan) position position) ∧
        ∃ loop, IsLoop Circle.plan loop ∧
          Error.cycle Circle.chain = .cycle (loop.map (Hop.render Circle.plan)) := by
  have failed : sortUnits Circle.plan = .error (.cycle Circle.chain) := by decide
  obtain ⟨cycle_iff, told⟩ := sortUnits_cycle_spec Circle.plan
  exact ⟨failed, cycle_iff.mp ⟨_, failed⟩, told _ failed⟩

end MeshTasks
