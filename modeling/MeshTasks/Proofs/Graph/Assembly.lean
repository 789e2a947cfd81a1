import Mathlib.Data.List.Induction
import Mathlib.Data.List.Sort
import Mathlib.Data.Set.Defs
import MeshTasks.Proofs.Graph.Gather

/-!
# Graphs put together edge by edge

A graph is put together by adding items and edges. However the additions follow
one another, the graph has one edge for each pair of items and each transfer
between them that was added, and this edge holds the materials of all these
additions. An addition changes the place it answers with and no other. So the
order of the additions shows in the places of the edges only.
-/

namespace MeshTasks

namespace Edge

/-- The materials of an edge are listed once each, in ascending order. -/
def Ascending (edge : Edge) : Prop :=
  edge.materials.Pairwise fun left right => rank left < rank right

private theorem ascending_of_single
    {edge : Edge}
    (single : edge.materials.length ≤ 1) :
    edge.Ascending := by
  unfold Ascending
  match materials : edge.materials with
  | [] => exact List.Pairwise.nil
  | [material] => exact List.pairwise_singleton _ _
  | _ :: _ :: _ => simp [materials] at single

/-- Materials are joined to a list only if it lacks them. -/
private theorem nodup_joined
    {held : List MaterialId}
    (distinct : held.Nodup)
    (added : List MaterialId) :
    (added.foldl (fun (all : List MaterialId) material =>
      if material ∈ all then all else all ++ [material]) held).Nodup := by
  induction added generalizing held with
  | nil => exact distinct
  | cons head tail inductionHypothesis =>
      rw [List.foldl_cons]
      by_cases present : head ∈ held
      · rw [if_pos present]
        exact inductionHypothesis distinct
      · rw [if_neg present]
        refine inductionHypothesis (List.nodup_append.mpr ⟨distinct, List.nodup_singleton _, ?_⟩)
        intro material inHeld other isHead same
        rw [List.mem_singleton] at isHead
        exact present (isHead ▸ same ▸ inHeld)

private theorem ascending_mergeMaterials
    {held : List MaterialId}
    (distinct : held.Nodup)
    (added : List MaterialId) :
    (mergeMaterials held added).Pairwise fun left right => rank left < rank right := by
  unfold mergeMaterials
  have joined := nodup_joined distinct added
  generalize added.foldl _ held = all at joined ⊢
  have sorted := @List.pairwise_mergeSort MaterialId
    (fun left right => decide (rank left ≤ rank right))
    (by simpa using fun _ _ _ => Nat.le_trans) (by simpa using fun _ _ => Nat.le_total _ _) all
  have stillDistinct := (List.mergeSort_perm all fun left right =>
    decide (rank left ≤ rank right)).nodup_iff.mpr joined
  refine sorted.imp₂ (fun left right ordered different => ?_) stillDistinct
  exact Nat.lt_of_le_of_ne (of_decide_eq_true ordered) fun sameRank =>
    different (Ranked.rank_injective sameRank)

private theorem ascending_absorb
    {edge : Edge} {held : List Edge}
    (ascending : edge.Ascending)
    (heldAscending : ∀ other ∈ held, other.Ascending) :
    ∀ other ∈ (edge.absorb held).1, other.Ascending := by
  intro other member
  rcases absorb_cases edge held with
    ⟨before, taker, after, rfl, _, absorbed⟩ | ⟨_, appended⟩
  · rw [absorbed, List.mem_append, List.mem_cons] at member
    rcases member with inBefore | same | inAfter
    · exact heldAscending other (List.mem_append_left _ inBefore)
    · have takerAscending := heldAscending taker (List.mem_append_right _ List.mem_cons_self)
      rw [same]
      exact ascending_mergeMaterials (Ranked.nodup_of_ascending takerAscending) _
    · exact heldAscending other (List.mem_append_right _ (List.mem_cons_of_mem _ inAfter))
  · rw [appended, List.mem_append, List.mem_singleton] at member
    rcases member with inHeld | same
    · exact heldAscending other inHeld
    · exact same ▸ ascending

private theorem ascending_gather
    {held added : List Edge}
    (heldAscending : ∀ edge ∈ held, edge.Ascending)
    (ascending : ∀ edge ∈ added, edge.Ascending) :
    ∀ edge ∈ gather held added, edge.Ascending := by
  induction added generalizing held with
  | nil => exact heldAscending
  | cons head tail inductionHypothesis =>
      refine inductionHypothesis ?_ fun edge member =>
        ascending edge (List.mem_cons_of_mem _ member)
      exact ascending_absorb (ascending head List.mem_cons_self) heldAscending

/-- The number that comes with an addition is the place of the edge that took it
in, and the other places stay as they were. -/
private theorem absorb_place (edge : Edge) (held : List Edge) :
    (∃ taker, (edge.absorb held).1[(edge.absorb held).2]? = some taker ∧ taker.Parallel edge) ∧
      ∀ place, place ≠ (edge.absorb held).2 → (edge.absorb held).1[place]? = held[place]? := by
  induction held with
  | nil =>
      refine ⟨⟨edge, rfl, Parallel.refl edge⟩, fun place elsewhere => ?_⟩
      cases place with
      | zero => exact absurd rfl elsewhere
      | succ _ => rfl
  | cons head tail inductionHypothesis =>
      unfold absorb
      by_cases parallel : head.isParallel edge = true
      · rw [if_pos parallel]
        refine ⟨⟨_, rfl, isParallel_iff.mp parallel⟩, fun place elsewhere => ?_⟩
        cases place with
        | zero => exact absurd rfl elsewhere
        | succ _ => rfl
      · rw [if_neg parallel]
        refine ⟨inductionHypothesis.1, fun place elsewhere => ?_⟩
        cases place with
        | zero => rfl
        | succ earlier =>
            exact inductionHypothesis.2 earlier fun same => elsewhere (congrArg (· + 1) same)

end Edge

namespace TaskGraph

/-- A graph is put together by adding items, and edges between items that are
there; the edges are listed as they were added. -/
inductive AssembledFrom : TaskGraph → List Edge → Prop
  | empty : AssembledFrom .empty []
  | addItem {graph : TaskGraph} {added : List Edge} (assembled : graph.AssembledFrom added)
      (item : WorkItem) : AssembledFrom (graph.addItem item).1 added
  | addEdge {graph : TaskGraph} {added : List Edge} (assembled : graph.AssembledFrom added)
      (edge : Edge) (producer_lt : edge.producer < graph.items.length)
      (consumer_lt : edge.consumer < graph.items.length) :
      AssembledFrom (graph.addEdge edge).1 (added ++ [edge])

/-- The edges of a graph, apart from their places and from the order of their
materials. -/
def edgeSet (graph : TaskGraph) : Set (Nat × Nat × Transfer × Set MaterialId) :=
  {described | ∃ edge ∈ graph.edges, described =
    (edge.producer, edge.consumer, edge.transfer, {material | material ∈ edge.materials})}

variable {graph other : TaskGraph} {added others : List Edge}

/-- Any items are put together before the first edge. -/
theorem AssembledFrom.ofItems (items : List WorkItem) : AssembledFrom ⟨items, []⟩ [] := by
  induction items using List.reverseRecOn with
  | nil => exact .empty
  | append_singleton items item inductionHypothesis => exact inductionHypothesis.addItem item

theorem AssembledFrom.addEdges
    (assembled : graph.AssembledFrom added)
    (edges : List Edge)
    (joined : ∀ edge ∈ edges,
      edge.producer < graph.items.length ∧ edge.consumer < graph.items.length) :
    (edges.foldl (fun graph edge => (graph.addEdge edge).1) graph).AssembledFrom
      (added ++ edges) := by
  induction edges generalizing graph added with
  | nil => rwa [List.append_nil]
  | cons edge edges inductionHypothesis =>
      obtain ⟨producerLt, consumerLt⟩ := joined edge List.mem_cons_self
      rw [List.append_cons]
      apply inductionHypothesis (assembled.addEdge edge producerLt consumerLt)
      exact fun other member => joined other (List.mem_cons_of_mem edge member)

theorem AssembledFrom.joins
    (assembled : graph.AssembledFrom added) :
    ∀ edge ∈ added,
      edge.producer < graph.items.length ∧ edge.consumer < graph.items.length := by
  induction assembled with
  | empty => exact fun _ member => absurd member List.not_mem_nil
  | addItem _ item inductionHypothesis =>
      intro edge member
      have joined := inductionHypothesis edge member
      simp only [TaskGraph.addItem, List.length_append, List.length_singleton]
      omega
  | addEdge _ edge producerLt consumerLt inductionHypothesis =>
      intro other member
      rcases List.mem_append.mp member with earlier | isEdge
      · exact inductionHypothesis other earlier
      · obtain rfl := List.mem_singleton.mp isEdge
        exact ⟨producerLt, consumerLt⟩

theorem AssembledFrom.edges_eq (assembled : graph.AssembledFrom added) :
    graph.edges = Edge.gather [] added := by
  induction assembled with
  | empty => rfl
  | addItem _ _ inductionHypothesis => exact inductionHypothesis
  | addEdge _ edge _ _ inductionHypothesis =>
      rw [Edge.gather_append, ← inductionHypothesis]
      rfl

theorem AssembledFrom.gathered (assembled : graph.AssembledFrom added) :
    Edge.Gathered added graph.edges :=
  assembled.edges_eq ▸ Edge.gathered_gather added

theorem AssembledFrom.ascending
    (assembled : graph.AssembledFrom added)
    (single : ∀ edge ∈ added, edge.materials.length ≤ 1) :
    ∀ edge ∈ graph.edges, edge.Ascending := by
  rw [assembled.edges_eq]
  exact Edge.ascending_gather (fun _ member => absurd member List.not_mem_nil) fun edge member =>
    Edge.ascending_of_single (single edge member)

/-- What gathers from the same edges, in whatever order, is the same set of
edges. -/
private theorem edgeSet_subset
    (gathered : Edge.Gathered added graph.edges)
    (otherGathered : Edge.Gathered others other.edges)
    (same : ∀ edge, edge ∈ added ↔ edge ∈ others) :
    graph.edgeSet ⊆ other.edgeSet := by
  rintro _ ⟨edge, member, rfl⟩
  obtain ⟨source, sourceMember, parallel⟩ := gathered.added_of_held edge member
  obtain ⟨twin, twinMember, twinParallel⟩ :=
    otherGathered.held_of_added source ((same source).mp sourceMember)
  have alike : twin.Parallel edge := twinParallel.trans parallel.symm
  have sameMaterials : {material | material ∈ edge.materials} =
      {material | material ∈ twin.materials} := by
    ext material
    rw [Set.mem_ofPred_eq, Set.mem_ofPred_eq, gathered.materials edge member,
      otherGathered.materials twin twinMember]
    refine exists_congr fun taken => and_congr (same taken) (and_congr_left fun _ => ?_)
    exact ⟨alike.trans, alike.symm.trans⟩
  refine ⟨twin, twinMember, ?_⟩
  rw [sameMaterials, alike.1, alike.2.1, alike.2.2]

/-- The graph has one edge for each pair of items and each transfer that was
added, with the materials of all these additions. A further addition answers
with the place of its edge and changes no other place. If no addition lists more
than one material, the materials of every edge are in ascending order. The order
of the additions does not matter for the set of edges. -/
theorem gathered_of_assembled (assembled : graph.AssembledFrom added) :
    Edge.Gathered added graph.edges ∧
      (∀ edge : Edge,
        (∃ taker, (graph.addEdge edge).1.edges[(graph.addEdge edge).2]? = some taker ∧
          taker.Parallel edge) ∧
        ∀ place, place ≠ (graph.addEdge edge).2 →
          (graph.addEdge edge).1.edges[place]? = graph.edges[place]?) ∧
        ((∀ edge ∈ added, edge.materials.length ≤ 1) →
          ∀ edge ∈ graph.edges, edge.Ascending) ∧
          ∀ {other : TaskGraph} {others : List Edge}, other.AssembledFrom others →
            others.Perm added → other.edgeSet = graph.edgeSet := by
  refine ⟨assembled.gathered, fun edge => Edge.absorb_place edge graph.edges,
    assembled.ascending, fun otherAssembled reordered => ?_⟩
  exact Set.Subset.antisymm
    (edgeSet_subset otherAssembled.gathered assembled.gathered fun _ => reordered.mem_iff)
    (edgeSet_subset assembled.gathered otherAssembled.gathered fun _ => reordered.mem_iff.symm)

end TaskGraph

/-! ## Two items and what passes between them -/

namespace Pair

def item (name : String) : WorkItem :=
  ⟨.unit 0, name, [], none, ⟨0⟩, 0, none⟩

def items : TaskGraph :=
  ⟨[item "writer", item "reader"], []⟩

/-- The reader takes a value on some materials from the writer. -/
def edge (name : String) (materials : List MaterialId) : Edge :=
  ⟨0, 1, ⟨⟨name, .cell⟩, .new, none, none, .zero, .always, .data⟩, materials⟩

/-- The two items with some edges between them. -/
def joined (edges : List Edge) : TaskGraph :=
  edges.foldl (fun graph edge => (graph.addEdge edge).1) items

theorem assembled_joined
    (edges : List Edge)
    (between : ∀ edge ∈ edges, edge.producer < 2 ∧ edge.consumer < 2) :
    (joined edges).AssembledFrom edges :=
  (TaskGraph.AssembledFrom.ofItems _).addEdges edges between

/-- Two materials of a value, the greater one first, and between them another
value. -/
def parts : List Edge :=
  [edge "x" [⟨2⟩], edge "y" [], edge "x" [⟨1⟩]]

/-- The same edges, with the other value first. -/
def reordered : List Edge :=
  [edge "y" [], edge "x" [⟨1⟩], edge "x" [⟨2⟩]]

end Pair

theorem gathered_of_assembled_pair :
    (Pair.joined Pair.parts).AssembledFrom Pair.parts ∧
      (Pair.joined Pair.parts).edges = [Pair.edge "x" [⟨1⟩, ⟨2⟩], Pair.edge "y" []] ∧
        (∀ edge ∈ (Pair.joined Pair.parts).edges, edge.Ascending) ∧
          (Pair.joined Pair.reordered).edges = [Pair.edge "y" [], Pair.edge "x" [⟨1⟩, ⟨2⟩]] ∧
            (Pair.joined Pair.reordered).edgeSet = (Pair.joined Pair.parts).edgeSet := by
  have merged : Edge.mergeMaterials [⟨2⟩] [⟨1⟩] = [⟨1⟩, ⟨2⟩] := by
    simp [Edge.mergeMaterials, List.mergeSort, rank]
  have mergedToo : Edge.mergeMaterials [⟨1⟩] [⟨2⟩] = [⟨1⟩, ⟨2⟩] := by
    simp [Edge.mergeMaterials, List.mergeSort, rank]
  have assembled := Pair.assembled_joined Pair.parts (by decide)
  obtain ⟨_, _, ascending, orderFree⟩ := TaskGraph.gathered_of_assembled assembled
  refine ⟨assembled, ?_, ascending (by decide), ?_, ?_⟩
  · show [Pair.edge "x" (Edge.mergeMaterials [⟨2⟩] [⟨1⟩]), Pair.edge "y" []] = _
    rw [merged]
  · show [Pair.edge "y" [], Pair.edge "x" (Edge.mergeMaterials [⟨1⟩] [⟨2⟩])] = _
    rw [mergedToo]
  · exact orderFree (Pair.assembled_joined Pair.reordered (by decide)) (by decide)

end MeshTasks
