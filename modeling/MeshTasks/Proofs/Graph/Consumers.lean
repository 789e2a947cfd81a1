import Mathlib.Data.Finset.Card
import Mathlib.Data.Finset.Dedup
import Mathlib.Data.Finset.Disjoint
import MeshTasks.Proofs.Graph.Assembly
import MeshTasks.Proofs.Selection

/-!
# Consumers counted

The scrub count of a stored value is the number of its passages: of the
different ways in which it was added as data from one item to another. This goes
for a value of a material, however the additions follow one another. For the
value of no material it goes as far as no material was added to the same
passage: an edge that holds a material no longer stands for the value of none,
and the consumer of that one is not counted.
-/

namespace MeshTasks

/-- From whom to whom a stored value passes, which cells of it and when. -/
structure Passage where
  producer : Nat
  consumer : Nat
  box : Option Box
  offset : Vec
  condition : Condition
deriving DecidableEq

namespace Edge

def passage (edge : Edge) : Passage :=
  ⟨edge.producer, edge.consumer, edge.transfer.box, edge.transfer.offset, edge.transfer.condition⟩

/-- A data edge of the label, generation and region of a stored value. -/
def Concerns (edge : Edge) (key : ScrubKey) : Prop :=
  edge.transfer.kind = .data ∧ edge.transfer.label = key.label ∧
    edge.transfer.binding = key.binding ∧ edge.transfer.region = key.region

/-- A data edge of a stored value and of no other. -/
def IsOf (edge : Edge) (key : ScrubKey) : Prop :=
  edge.Concerns key ∧ edge.materials = key.material.toList

instance (edge : Edge) (key : ScrubKey) : Decidable (edge.Concerns key) :=
  inferInstanceAs (Decidable (_ ∧ _))

instance (edge : Edge) (key : ScrubKey) : Decidable (edge.IsOf key) :=
  inferInstanceAs (Decidable (_ ∧ _))

/-- The passages of a stored value among some additions. -/
def passages (added : List Edge) (key : ScrubKey) : Finset Passage :=
  ((added.filter fun edge => decide (edge.IsOf key)).map passage).toFinset

/-- For the value of no material, the passages that were added with a material
as well. -/
def overlaid (added : List Edge) (key : ScrubKey) : Finset Passage :=
  ((added.filter fun edge =>
    decide (key.material = none ∧ edge.Concerns key ∧ edge.materials ≠ [])).map passage).toFinset

variable {added held : List Edge} {edge other : Edge} {key : ScrubKey} {taken : Passage}

private theorem mem_passages :
    taken ∈ passages added key ↔ ∃ edge ∈ added, edge.IsOf key ∧ edge.passage = taken := by
  simp [passages, and_assoc]

private theorem mem_overlaid :
    taken ∈ overlaid added key ↔
      key.material = none ∧
        ∃ edge ∈ added, (edge.Concerns key ∧ edge.materials ≠ []) ∧ edge.passage = taken := by
  simp only [overlaid, List.mem_toFinset, List.mem_map, List.mem_filter, decide_eq_true_eq]
  constructor
  · rintro ⟨edge, ⟨member, noMaterial, concerns⟩, same⟩
    exact ⟨noMaterial, edge, member, concerns, same⟩
  · rintro ⟨noMaterial, edge, member, concerns, same⟩
    exact ⟨edge, ⟨member, noMaterial, concerns⟩, same⟩

/-- Only the value of no material may be overlaid. -/
private theorem overlaid_eq_empty (hasMaterial : key.material ≠ none) : overlaid added key = ∅ := by
  rw [Finset.eq_empty_iff_forall_notMem]
  exact fun _ member => hasMaterial (mem_overlaid.mp member).1

private theorem Parallel.passage_eq (parallel : edge.Parallel other) :
    edge.passage = other.passage := by
  unfold passage
  rw [parallel.1, parallel.2.1, parallel.2.2]

private theorem Parallel.concerns
    (parallel : edge.Parallel other)
    (concerns : edge.Concerns key) :
    other.Concerns key := by
  unfold Concerns
  rw [← parallel.2.2]
  exact concerns

/-- The edges of a stored value are told apart by their passages. -/
private theorem Concerns.parallel
    (concerns : edge.Concerns key)
    (otherConcerns : other.Concerns key)
    (same : edge.passage = other.passage) :
    edge.Parallel other := by
  obtain ⟨kind, label, binding, region⟩ := concerns
  obtain ⟨otherKind, otherLabel, otherBinding, otherRegion⟩ := otherConcerns
  simp only [passage, Passage.mk.injEq] at same
  obtain ⟨producer, consumer, box, offset, condition⟩ := same
  refine ⟨producer, consumer, ?_⟩
  rw [Transfer.mk.injEq]
  exact ⟨label.trans otherLabel.symm, binding.trans otherBinding.symm,
    region.trans otherRegion.symm, box, offset, condition, kind.trans otherKind.symm⟩

private theorem mem_scrubKeys_iff :
    key ∈ edge.scrubKeys ↔
      edge.Concerns key ∧
        ((edge.materials = [] ∧ key.material = none) ∨
          ∃ material ∈ edge.materials, key.material = some material) := by
  rw [mem_scrubKeys]
  unfold Concerns
  simp only [and_assoc, eq_comm]

private theorem nodup_scrubKeys (ascending : edge.Ascending) : edge.scrubKeys.Nodup := by
  have distinct : edge.materials.Nodup := Ranked.nodup_of_ascending ascending
  unfold scrubKeys
  split
  · exact List.nodup_nil
  · split
    · exact List.nodup_singleton _
    · refine distinct.map fun left right same => ?_
      simpa using same

/-- A gathered edge carries a value of a material if one of the additions to it
does. -/
private theorem Gathered.mem_scrubKeys_of_some
    {material : MaterialId}
    (gathered : Gathered added held)
    (single : ∀ edge ∈ added, edge.materials.length ≤ 1)
    (member : edge ∈ held)
    (isSome : key.material = some material) :
    key ∈ edge.scrubKeys ↔ ∃ source ∈ added, edge.Parallel source ∧ source.IsOf key := by
  have inEdge : key ∈ edge.scrubKeys ↔ edge.Concerns key ∧ material ∈ edge.materials := by
    rw [mem_scrubKeys_iff]
    simp [isSome, eq_comm]
  rw [inEdge, gathered.materials edge member]
  constructor
  · rintro ⟨concerns, source, sourceMember, parallel, inSource⟩
    obtain ⟨only, isOnly⟩ := List.length_eq_one_iff.mp
      (Nat.le_antisymm (single source sourceMember) (List.length_pos_of_mem inSource))
    rw [isOnly, List.mem_singleton] at inSource
    refine ⟨source, sourceMember, parallel, parallel.concerns concerns, ?_⟩
    rw [isOnly, isSome, inSource]
    rfl
  · rintro ⟨source, sourceMember, parallel, concerns, isJust⟩
    refine ⟨parallel.symm.concerns concerns, source, sourceMember, parallel, ?_⟩
    rw [isJust, isSome]
    exact List.mem_singleton_self material

/-- A gathered edge carries the value of no material if all the additions to it
do. -/
private theorem Gathered.mem_scrubKeys_of_none
    (gathered : Gathered added held)
    (member : edge ∈ held)
    (isNone : key.material = none) :
    key ∈ edge.scrubKeys ↔
      edge.Concerns key ∧ ∀ source ∈ added, edge.Parallel source → source.materials = [] := by
  have inEdge : key ∈ edge.scrubKeys ↔ edge.Concerns key ∧ edge.materials = [] := by
    rw [mem_scrubKeys_iff]
    simp [isNone]
  rw [inEdge, List.eq_nil_iff_forall_not_mem]
  refine and_congr_right fun _ => ?_
  simp only [gathered.materials edge member, List.eq_nil_iff_forall_not_mem]
  constructor
  · intro bare source sourceMember parallel material inSource
    exact bare material ⟨source, sourceMember, parallel, inSource⟩
  · rintro bare material ⟨source, sourceMember, parallel, inSource⟩
    exact bare source sourceMember parallel material inSource

private theorem Gathered.passages_eq
    (gathered : Gathered added held)
    (single : ∀ edge ∈ added, edge.materials.length ≤ 1) :
    ((held.filter fun edge => decide (key ∈ edge.scrubKeys)).map passage).toFinset =
      passages added key \ overlaid added key := by
  ext taken
  have carried :
      taken ∈ ((held.filter fun edge => decide (key ∈ edge.scrubKeys)).map passage).toFinset ↔
        ∃ edge ∈ held, key ∈ edge.scrubKeys ∧ edge.passage = taken := by
    simp [and_assoc]
  rw [carried, Finset.mem_sdiff, mem_passages, mem_overlaid]
  -- One addition suffices for a material; for no material all additions to the edge must lack one.
  cases isMaterial : key.material with
  | some material =>
      constructor
      · rintro ⟨edge, member, carries, rfl⟩
        obtain ⟨source, sourceMember, parallel, isOf⟩ :=
          (gathered.mem_scrubKeys_of_some single member isMaterial).mp carries
        exact ⟨⟨source, sourceMember, isOf, parallel.passage_eq.symm⟩, nofun⟩
      · rintro ⟨⟨source, sourceMember, isOf, rfl⟩, _⟩
        obtain ⟨edge, member, parallel⟩ := gathered.held_of_added source sourceMember
        exact ⟨edge, member, (gathered.mem_scrubKeys_of_some single member isMaterial).mpr
          ⟨source, sourceMember, parallel, isOf⟩, parallel.passage_eq⟩
  | none =>
      constructor
      · rintro ⟨edge, member, carries, rfl⟩
        obtain ⟨concerns, bare⟩ := (gathered.mem_scrubKeys_of_none member isMaterial).mp carries
        obtain ⟨source, sourceMember, parallel⟩ := gathered.added_of_held edge member
        have isOf : source.IsOf key := by
          refine ⟨parallel.concerns concerns, ?_⟩
          rw [bare source sourceMember parallel, isMaterial]
          rfl
        refine ⟨⟨source, sourceMember, isOf, parallel.passage_eq.symm⟩, ?_⟩
        rintro ⟨_, fuller, fullerMember, ⟨fullerConcerns, notBare⟩, same⟩
        exact notBare (bare fuller fullerMember (concerns.parallel fullerConcerns same.symm))
      · rintro ⟨⟨source, sourceMember, ⟨concerns, _⟩, rfl⟩, notOverlaid⟩
        obtain ⟨edge, member, parallel⟩ := gathered.held_of_added source sourceMember
        refine ⟨edge, member, ?_, parallel.passage_eq⟩
        refine (gathered.mem_scrubKeys_of_none member isMaterial).mpr
          ⟨parallel.symm.concerns concerns, fun other otherMember otherParallel => ?_⟩
        have alike : source.Parallel other := parallel.symm.trans otherParallel
        by_contra notBare
        exact notOverlaid ⟨rfl, other, otherMember, ⟨alike.concerns concerns, notBare⟩,
          alike.passage_eq.symm⟩

end Edge

namespace TaskGraph

variable {graph : TaskGraph} {added : List Edge}

private theorem scrubCount_eq_length
    (ascending : ∀ edge ∈ graph.edges, edge.Ascending)
    (key : ScrubKey) :
    graph.scrubCount key =
      (graph.edges.filter fun edge => decide (key ∈ edge.scrubKeys)).length := by
  unfold scrubCount scrubKeys
  rw [count_flatMap_of_nodup fun edge member => Edge.nodup_scrubKeys (ascending edge member),
    List.countP_eq_length_filter]

theorem scrubCount_eq_card
    (gathered : Edge.Gathered added graph.edges)
    (ascending : ∀ edge ∈ graph.edges, edge.Ascending)
    (key : ScrubKey) :
    graph.scrubCount key =
      ((graph.edges.filter fun edge => decide (key ∈ edge.scrubKeys)).map
        Edge.passage).toFinset.card := by
  rw [scrubCount_eq_length ascending, List.toFinset_card_of_nodup, List.length_map]
  rw [List.Nodup, List.pairwise_map]
  refine (gathered.separate.filter _).imp_of_mem fun {left right} leftMember rightMember apart => ?_
  have leftCarries := of_decide_eq_true (List.mem_filter.mp leftMember).2
  have rightCarries := of_decide_eq_true (List.mem_filter.mp rightMember).2
  exact fun same => apart ((Edge.mem_scrubKeys_iff.mp leftCarries).1.parallel
    (Edge.mem_scrubKeys_iff.mp rightCarries).1 same)

theorem mem_scrubTable {key : ScrubKey} {count : Nat} :
    (key, count) ∈ graph.scrubTable ↔ count ≠ 0 ∧ count = graph.scrubCount key := by
  unfold scrubTable
  simp only [List.mem_map, List.mem_mergeSort, List.mem_eraseDups, Prod.mk.injEq]
  have counted : key ∈ graph.scrubKeys ↔ graph.scrubCount key ≠ 0 := by
    unfold scrubCount
    rw [ne_eq, List.count_eq_zero, not_not]
  constructor
  · rintro ⟨_, member, rfl, rfl⟩
    exact ⟨counted.mp member, rfl⟩
  · rintro ⟨notZero, rfl⟩
    exact ⟨key, counted.mpr notZero, rfl, rfl⟩

/-- If every addition has at most one material, the scrub count of a value is
the number of its passages, less those that are overlaid. So a value of a
material is counted in full, and the value of no material just as far as none of
its passages was added with a material. The table lists the counts that are not
zero. -/
theorem scrubCount_of_assembled
    (assembled : graph.AssembledFrom added)
    (single : ∀ edge ∈ added, edge.materials.length ≤ 1)
    (key : ScrubKey) :
    graph.scrubCount key = (Edge.passages added key \ Edge.overlaid added key).card ∧
      (graph.scrubCount key = (Edge.passages added key).card ↔
        Disjoint (Edge.passages added key) (Edge.overlaid added key)) ∧
        (key.material ≠ none → graph.scrubCount key = (Edge.passages added key).card) ∧
          ∀ count, (key, count) ∈ graph.scrubTable ↔
            count ≠ 0 ∧ count = (Edge.passages added key \ Edge.overlaid added key).card := by
  have counted : graph.scrubCount key =
      (Edge.passages added key \ Edge.overlaid added key).card := by
    rw [scrubCount_eq_card assembled.gathered (assembled.ascending single),
      assembled.gathered.passages_eq single]
  refine ⟨counted, ?_, fun hasMaterial => ?_, fun count => ?_⟩
  · rw [counted, ← Finset.sdiff_eq_self_iff_disjoint]
    exact ⟨Finset.eq_of_subset_of_card_le Finset.sdiff_subset ∘ Nat.le_of_eq ∘ Eq.symm,
      congrArg Finset.card⟩
  · rw [counted, Edge.overlaid_eq_empty hasMaterial, Finset.sdiff_empty]
  · rw [mem_scrubTable, counted]

end TaskGraph

namespace Pair

/-- A value is taken without materials, then its first material beside that, and
without materials again in the first execution only. -/
def blended : List Edge :=
  [edge "x" [], edge "x" [⟨1⟩],
    ⟨0, 1, { (edge "x" []).transfer with condition := .firstIterationOnly }, []⟩]

/-- A value is taken without materials, then on a material. -/
def overlaidOnce : List Edge :=
  [edge "x" [], edge "x" [⟨1⟩]]

def key (material : Option MaterialId) : ScrubKey :=
  ⟨⟨"x", .cell⟩, .new, none, material⟩

end Pair

theorem scrubCount_of_assembled_pair :
    (Pair.joined Pair.blended).scrubCount (Pair.key (some ⟨1⟩)) = 1 ∧
      (Pair.joined Pair.blended).scrubCount (Pair.key none) = 1 ∧
        (Pair.key none, 1) ∈ (Pair.joined Pair.blended).scrubTable := by
  have assembled := Pair.assembled_joined Pair.blended (by decide)
  have single : ∀ edge ∈ Pair.blended, edge.materials.length ≤ 1 := by decide
  obtain ⟨_, _, ofMaterial, _⟩ :=
    TaskGraph.scrubCount_of_assembled assembled single (Pair.key (some ⟨1⟩))
  obtain ⟨ofNone, _, _, listed⟩ :=
    TaskGraph.scrubCount_of_assembled assembled single (Pair.key none)
  exact ⟨(ofMaterial (by decide)).trans (by decide), ofNone.trans (by decide),
    (listed 1).mpr (by decide)⟩

/-- The consumer of the value without materials is not counted where it takes a
material as well. -/
theorem consumer_uncounted_pair :
    (Pair.joined Pair.overlaidOnce).AssembledFrom Pair.overlaidOnce ∧
      (∀ edge ∈ Pair.overlaidOnce, edge.materials.length ≤ 1) ∧
        (Edge.passages Pair.overlaidOnce (Pair.key none)).card = 1 ∧
          (Pair.joined Pair.overlaidOnce).scrubCount (Pair.key none) = 0 ∧
            ∀ count, (Pair.key none, count) ∉ (Pair.joined Pair.overlaidOnce).scrubTable := by
  have uncounted : (Pair.joined Pair.overlaidOnce).scrubCount (Pair.key none) = 0 := by
    have merged : Edge.mergeMaterials [] [⟨1⟩] = [⟨1⟩] := by simp [Edge.mergeMaterials]
    show (Edge.scrubKeys (Pair.edge "x" (Edge.mergeMaterials [] [⟨1⟩])) ++ []).count _ = 0
    rw [merged]
    decide
  refine ⟨Pair.assembled_joined _ (by decide), by decide, by decide, uncounted,
    fun count listed => ?_⟩
  obtain ⟨notZero, isCount⟩ := TaskGraph.mem_scrubTable.mp listed
  exact notZero (isCount.trans uncounted)

end MeshTasks
