import Mathlib.Data.List.Perm.Basic
import MeshTasks.Graph.Wavefront

/-!
# Wavefronts

An item waits for another if an edge of the first execution leads from that one
to it. A wavefront takes, of the items that remain, those that wait for none of
the others.
-/

namespace MeshTasks

namespace TaskGraph

/-- An edge of the first execution leads from one item to another. -/
def Before (graph : TaskGraph) (earlier later : Nat) : Prop :=
  ∃ edge ∈ graph.edges, edge.countsFirst = true ∧ edge.producer = earlier ∧ edge.consumer = later

/-- The items that have not run. -/
def remaining (graph : TaskGraph) (done : List Nat) : List Nat :=
  (List.range graph.items.length).filter fun id => decide (id ∉ done)

variable {graph : TaskGraph} {done : List Nat} {id producer : Nat}

theorem mem_waitsFor : producer ∈ graph.waitsFor id ↔ graph.Before producer id := by
  unfold waitsFor
  rw [List.mem_map]
  refine exists_congr fun edge => ?_
  rw [List.mem_filter, Bool.and_eq_true, decide_eq_true_eq]
  constructor
  · rintro ⟨⟨member, sameConsumer, counts⟩, sameProducer⟩
    exact ⟨member, counts, sameProducer, sameConsumer⟩
  · rintro ⟨member, counts, sameProducer, sameConsumer⟩
    exact ⟨⟨member, sameConsumer, counts⟩, sameProducer⟩

theorem mem_nextWavefront :
    id ∈ graph.nextWavefront done ↔
      id < graph.items.length ∧ id ∉ done ∧
        ∀ producer ∈ graph.waitsFor id, producer ∈ done := by
  unfold nextWavefront
  rw [List.mem_filter, List.mem_range, Bool.and_eq_true, decide_eq_true_eq, List.all_eq_true]
  simp only [decide_eq_true_eq]

theorem mem_remaining : id ∈ graph.remaining done ↔ id < graph.items.length ∧ id ∉ done := by
  unfold remaining
  rw [List.mem_filter, List.mem_range, decide_eq_true_eq]

/-- The execution order runs every item once. -/
theorem executionOrder_perm (graph : TaskGraph) :
    graph.executionOrder.Perm (List.range graph.items.length) := by
  let sends (id : Nat) : Bool := (graph.items[id]?).any WorkItem.isSend
  have areSends :
      graph.sendItems = (List.range graph.items.length).filter sends := by
    apply List.filter_congr
    intro id member
    simp [sends, List.getElem?_eq_getElem (List.mem_range.mp member)]
  have ofUnits :
      graph.unitItems = (List.range graph.items.length).filter fun id => !sends id := by
    apply List.filter_congr
    intro id member
    simp [sends, List.getElem?_eq_getElem (List.mem_range.mp member)]
  unfold executionOrder
  rw [areSends, ofUnits]
  exact List.filter_append_perm sends _

/-- A wavefront takes its items from those that remain. -/
theorem remaining_perm_append (graph : TaskGraph) (done : List Nat) :
    (graph.nextWavefront done ++ graph.remaining (done ++ graph.nextWavefront done)).Perm
      (graph.remaining done) := by
  let isReady (id : Nat) : Bool := (graph.waitsFor id).all fun producer => decide (producer ∈ done)
  have front : graph.nextWavefront done = (graph.remaining done).filter isReady := by
    unfold nextWavefront remaining
    rw [List.filter_filter]
    exact List.filter_congr fun id _ => Bool.and_comm _ _
  have rest :
      graph.remaining (done ++ graph.nextWavefront done) =
        (graph.remaining done).filter fun id => !isReady id := by
    unfold remaining
    rw [List.filter_filter]
    refine List.filter_congr fun id member => ?_
    rw [Bool.eq_iff_iff, Bool.and_eq_true, Bool.not_eq_true', decide_eq_true_eq,
      decide_eq_true_eq, List.mem_append, mem_nextWavefront, Bool.eq_false_iff]
    have readyIff : isReady id = true ↔ ∀ producer ∈ graph.waitsFor id, producer ∈ done := by
      simp only [isReady, List.all_eq_true, decide_eq_true_eq]
    rw [Ne, readyIff]
    constructor
    · intro neither
      exact ⟨fun ready => neither (Or.inr ⟨List.mem_range.mp member,
        fun inDone => neither (Or.inl inDone), ready⟩), fun inDone => neither (Or.inl inDone)⟩
    · rintro ⟨notReady, notDone⟩ (inDone | ⟨_, _, ready⟩)
      · exact notDone inDone
      · exact notReady ready
  rw [rest, front]
  exact List.filter_append_perm isReady (graph.remaining done)

end TaskGraph

end MeshTasks
