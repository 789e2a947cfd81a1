import MeshTasks.Graph.Scrub

/-!
# Edges added one after the other

Adding edges to a list gathers them: parallel edges become one, which holds the
materials of all of them. `Edge.Gathered` says what a list of edges is to the
sequence that was added to it, and every addition keeps it. The edges into one
item depend only on the additions into that item, and renaming the items renames
the gathered edges.
-/

namespace MeshTasks

namespace Edge

/-- Two edges join the same items for the same transfer. -/
def Parallel (left right : Edge) : Prop :=
  left.producer = right.producer ∧ left.consumer = right.consumer ∧ left.transfer = right.transfer

theorem isParallel_iff {left right : Edge} :
    left.isParallel right = true ↔ left.Parallel right := by
  simp only [isParallel, Parallel, Bool.and_eq_true, decide_eq_true_eq, and_assoc]

namespace Parallel

theorem refl (edge : Edge) : edge.Parallel edge :=
  ⟨rfl, rfl, rfl⟩

theorem symm {left right : Edge} (parallel : left.Parallel right) : right.Parallel left :=
  ⟨parallel.1.symm, parallel.2.1.symm, parallel.2.2.symm⟩

theorem trans
    {first second third : Edge}
    (firstSecond : first.Parallel second)
    (secondThird : second.Parallel third) :
    first.Parallel third :=
  ⟨firstSecond.1.trans secondThird.1, firstSecond.2.1.trans secondThird.2.1,
    firstSecond.2.2.trans secondThird.2.2⟩

end Parallel

private theorem mem_mergeMaterials {held added : List MaterialId} {material : MaterialId} :
    material ∈ mergeMaterials held added ↔ material ∈ held ∨ material ∈ added := by
  unfold mergeMaterials
  rw [List.mem_mergeSort]
  induction added generalizing held with
  | nil => simp
  | cons head tail inductionHypothesis =>
      rw [List.foldl_cons, inductionHypothesis, List.mem_cons]
      by_cases present : head ∈ held
      · rw [if_pos present]
        constructor
        · rintro (inHeld | inTail)
          · exact Or.inl inHeld
          · exact Or.inr (Or.inr inTail)
        · rintro (inHeld | same | inTail)
          · exact Or.inl inHeld
          · exact Or.inl (same ▸ present)
          · exact Or.inr inTail
      · rw [if_neg present, List.mem_append, List.mem_singleton, or_assoc]

/-- An edge is absorbed by the one edge parallel to it, or else added at
the end. -/
theorem absorb_cases (edge : Edge) (held : List Edge) :
    (∃ before taker after,
      held = before ++ taker :: after ∧ taker.Parallel edge ∧
        (edge.absorb held).1 =
          before ++
            { taker with materials := mergeMaterials taker.materials edge.materials } :: after) ∨
      ((∀ other ∈ held, ¬ other.Parallel edge) ∧ (edge.absorb held).1 = held ++ [edge]) := by
  induction held with
  | nil => exact Or.inr ⟨fun _ member => absurd member List.not_mem_nil, rfl⟩
  | cons head tail inductionHypothesis =>
      unfold absorb
      by_cases headParallel : head.isParallel edge = true
      · rw [if_pos headParallel]
        exact Or.inl ⟨[], head, tail, rfl, isParallel_iff.mp headParallel, rfl⟩
      · rw [if_neg headParallel]
        rcases inductionHypothesis with
          ⟨before, taker, after, tailEq, parallel, absorbed⟩ | ⟨noneParallel, appended⟩
        · refine Or.inl ⟨head :: before, taker, after, ?_, parallel, ?_⟩
          · rw [tailEq, List.cons_append]
          · exact congrArg (List.cons head) absorbed
        · refine Or.inr ⟨fun other member => ?_, congrArg (List.cons head) appended⟩
          rcases List.mem_cons.mp member with same | inTail
          · exact same ▸ fun parallel => headParallel (isParallel_iff.mpr parallel)
          · exact noneParallel other inTail

private theorem exists_mem_concat {P : Edge → Prop} {edges : List Edge} {edge : Edge} :
    (∃ other ∈ edges ++ [edge], P other) ↔ (∃ other ∈ edges, P other) ∨ P edge := by
  simp only [List.mem_append, List.mem_singleton, or_and_right, exists_or, exists_eq_left]

/-- What a list of edges is to the sequence of edges that was added to it. -/
structure Gathered (added held : List Edge) : Prop where
  separate : held.Pairwise fun left right => ¬ left.Parallel right
  added_of_held : ∀ edge ∈ held, ∃ source ∈ added, edge.Parallel source
  held_of_added : ∀ source ∈ added, ∃ edge ∈ held, edge.Parallel source
  materials : ∀ edge ∈ held, ∀ material,
    material ∈ edge.materials ↔
      ∃ source ∈ added, edge.Parallel source ∧ material ∈ source.materials

namespace Gathered

variable {added held : List Edge}

theorem nil : Gathered [] [] where
  separate := List.Pairwise.nil
  added_of_held := fun _ member => absurd member List.not_mem_nil
  held_of_added := fun _ member => absurd member List.not_mem_nil
  materials := fun _ member => absurd member List.not_mem_nil

private theorem append_fresh
    {edge : Edge}
    (gathered : Gathered added held)
    (fresh : ∀ other ∈ held, ¬ other.Parallel edge) :
    Gathered (added ++ [edge]) (held ++ [edge]) where
  separate := by
    rw [List.pairwise_append]
    refine ⟨gathered.separate, List.pairwise_singleton _ _, ?_⟩
    intro left leftMember right rightMember
    rw [List.mem_singleton] at rightMember
    exact rightMember ▸ fresh left leftMember
  added_of_held := by
    intro other member
    rw [exists_mem_concat]
    rcases List.mem_append.mp member with inHeld | atEnd
    · exact Or.inl (gathered.added_of_held other inHeld)
    · rw [List.mem_singleton] at atEnd
      exact Or.inr (atEnd ▸ Parallel.refl edge)
  held_of_added := by
    intro source member
    rw [exists_mem_concat]
    rcases List.mem_append.mp member with inAdded | atEnd
    · exact Or.inl (gathered.held_of_added source inAdded)
    · rw [List.mem_singleton] at atEnd
      exact Or.inr (atEnd ▸ Parallel.refl edge)
  materials := by
    intro other member material
    rw [exists_mem_concat]
    rcases List.mem_append.mp member with inHeld | atEnd
    · rw [gathered.materials other inHeld material]
      constructor
      · exact Or.inl
      · rintro (inAdded | ⟨parallel, _⟩)
        · exact inAdded
        · exact absurd parallel (fresh other inHeld)
    · rw [List.mem_singleton] at atEnd
      subst atEnd
      constructor
      · exact fun found => Or.inr ⟨Parallel.refl other, found⟩
      · rintro (⟨source, inAdded, parallel, _⟩ | ⟨_, found⟩)
        · obtain ⟨taker, takerMember, takerParallel⟩ := gathered.held_of_added source inAdded
          exact absurd (takerParallel.trans parallel.symm) (fresh taker takerMember)
        · exact found

/-- An edge may take in the materials of a parallel one, and stays what it was
to the others. -/
theorem merge
    {before after : List Edge} {taker edge : Edge}
    (gathered : Gathered added (before ++ taker :: after))
    (parallel : taker.Parallel edge) :
    Gathered (added ++ [edge])
      (before ++
        { taker with materials := mergeMaterials taker.materials edge.materials } :: after) := by
  have takerMember : taker ∈ before ++ taker :: after :=
    List.mem_append_right _ List.mem_cons_self
  obtain ⟨separateBefore, separateRest, separateAcross⟩ :=
    List.pairwise_append.mp gathered.separate
  obtain ⟨takerSeparate, separateAfter⟩ := List.pairwise_cons.mp separateRest
  have split :
      ∀ {other merged : Edge}, other ∈ before ++ merged :: after →
        other = merged ∨ (other ∈ before ++ taker :: after ∧ ¬ other.Parallel edge) := by
    intro other merged member
    rcases List.mem_append.mp member with inBefore | inRest
    · refine Or.inr ⟨List.mem_append_left _ inBefore, fun otherParallel => ?_⟩
      exact separateAcross other inBefore taker List.mem_cons_self
        (otherParallel.trans parallel.symm)
    · rcases List.mem_cons.mp inRest with same | inAfter
      · exact Or.inl same
      · refine Or.inr ⟨List.mem_append_right _ (List.mem_cons_of_mem _ inAfter), ?_⟩
        exact fun otherParallel =>
          takerSeparate other inAfter (parallel.trans otherParallel.symm)
  refine ⟨?_, fun other member => ?_, fun source member => ?_, fun other member material => ?_⟩
  · rw [List.pairwise_append, List.pairwise_cons]
    refine ⟨separateBefore, ⟨takerSeparate, separateAfter⟩, ?_⟩
    intro left leftMember right rightMember
    rcases List.mem_cons.mp rightMember with same | inAfter
    · exact same ▸ separateAcross left leftMember taker List.mem_cons_self
    · exact separateAcross left leftMember right (List.mem_cons_of_mem _ inAfter)
  · rw [exists_mem_concat]
    rcases split member with same | ⟨kept, _⟩
    · exact Or.inr (same ▸ parallel)
    · exact Or.inl (gathered.added_of_held other kept)
  · have parallelHeld : ∃ other ∈ before ++ taker :: after, other.Parallel source := by
      rcases List.mem_append.mp member with inAdded | atEnd
      · exact gathered.held_of_added source inAdded
      · rw [List.mem_singleton] at atEnd
        exact ⟨taker, takerMember, atEnd ▸ parallel⟩
    obtain ⟨other, otherMember, otherParallel⟩ := parallelHeld
    rcases List.mem_append.mp otherMember with inBefore | inRest
    · exact ⟨other, List.mem_append_left _ inBefore, otherParallel⟩
    · rcases List.mem_cons.mp inRest with same | inAfter
      · exact ⟨_, List.mem_append_right _ List.mem_cons_self, same ▸ otherParallel⟩
      · exact ⟨other, List.mem_append_right _ (List.mem_cons_of_mem _ inAfter), otherParallel⟩
  · rw [exists_mem_concat]
    rcases split member with same | ⟨kept, apart⟩
    · subst same
      rw [mem_mergeMaterials, gathered.materials taker takerMember material]
      exact or_congr Iff.rfl ⟨fun found => ⟨parallel, found⟩, And.right⟩
    · rw [gathered.materials other kept material]
      constructor
      · exact Or.inl
      · rintro (inAdded | ⟨otherParallel, _⟩)
        · exact inAdded
        · exact absurd otherParallel apart

theorem absorb (gathered : Gathered added held) (edge : Edge) :
    Gathered (added ++ [edge]) (edge.absorb held).1 := by
  rcases absorb_cases edge held with
    ⟨before, taker, after, heldEq, parallel, absorbed⟩ | ⟨fresh, appended⟩
  · rw [absorbed]
    exact (heldEq ▸ gathered).merge parallel
  · rw [appended]
    exact gathered.append_fresh fresh

end Gathered

theorem mem_scrubKeys {edge : Edge} {key : ScrubKey} :
    key ∈ edge.scrubKeys ↔
      edge.transfer.kind = .data ∧ key.label = edge.transfer.label ∧
        key.binding = edge.transfer.binding ∧ key.region = edge.transfer.region ∧
          ((edge.materials = [] ∧ key.material = none) ∨
            ∃ material ∈ edge.materials, key.material = some material) := by
  obtain ⟨label, binding, region, material⟩ := key
  unfold scrubKeys
  by_cases isData : edge.transfer.kind = .data
  · rw [if_neg (not_not_intro isData)]
    cases materialsEq : edge.materials with
    | nil => simp [isData]
    | cons head tail =>
        rw [List.isEmpty_cons, if_neg Bool.false_ne_true, List.mem_map]
        constructor
        · intro found
          obtain ⟨held, heldMember, same⟩ := found
          cases same
          exact ⟨isData, rfl, rfl, rfl, Or.inr ⟨held, heldMember, rfl⟩⟩
        · intro carried
          obtain ⟨_, rfl, rfl, rfl, impossible | found⟩ := carried
          · cases impossible.1
          · obtain ⟨held, heldMember, rfl⟩ := found
            exact ⟨held, heldMember, rfl⟩
  · rw [if_pos isData]
    simp [isData]

/-- What a gathered edge carries was carried by one of the edges that were
added. -/
theorem Gathered.exists_source
    {added held : List Edge} {edge : Edge} {key : ScrubKey}
    (gathered : Gathered added held)
    (member : edge ∈ held)
    (carried : key ∈ edge.scrubKeys) :
    ∃ source ∈ added, edge.Parallel source ∧ key ∈ source.scrubKeys := by
  obtain ⟨isData, sameLabel, sameBinding, sameRegion, carriesMaterial⟩ := mem_scrubKeys.mp carried
  have source_carries :
      ∀ source : Edge, edge.Parallel source →
        ((source.materials = [] ∧ key.material = none) ∨
          ∃ material ∈ source.materials, key.material = some material) →
          key ∈ source.scrubKeys := by
    intro source parallel carries
    rw [mem_scrubKeys, ← parallel.2.2]
    exact ⟨isData, sameLabel, sameBinding, sameRegion, carries⟩
  rcases carriesMaterial with ⟨noMaterials, isNone⟩ | ⟨material, inEdge, isSome⟩
  · obtain ⟨source, sourceMember, parallel⟩ := gathered.added_of_held edge member
    refine ⟨source, sourceMember, parallel, source_carries source parallel (Or.inl ⟨?_, isNone⟩)⟩
    rw [List.eq_nil_iff_forall_not_mem]
    intro material inSource
    have inEdge :=
      (gathered.materials edge member material).mpr ⟨source, sourceMember, parallel, inSource⟩
    rw [noMaterials] at inEdge
    cases inEdge
  · obtain ⟨source, sourceMember, parallel, inSource⟩ :=
      (gathered.materials edge member material).mp inEdge
    exact ⟨source, sourceMember, parallel,
      source_carries source parallel (Or.inr ⟨material, inSource, isSome⟩)⟩

/-- The edges that a list of edges becomes when others are added one after the
other. -/
def gather (held added : List Edge) : List Edge :=
  added.foldl (fun edges edge => (edge.absorb edges).1) held

theorem gather_append (held first second : List Edge) :
    gather held (first ++ second) = gather (gather held first) second :=
  List.foldl_append

theorem gathered_gather (added : List Edge) : Gathered added (gather [] added) := by
  have started :
      ∀ (rest earlier held : List Edge),
        Gathered earlier held → Gathered (earlier ++ rest) (gather held rest) := by
    intro rest
    induction rest with
    | nil =>
        intro earlier held gathered
        rwa [List.append_nil]
    | cons head tail inductionHypothesis =>
        intro earlier held gathered
        have next := inductionHypothesis (earlier ++ [head]) _ (gathered.absorb head)
        rwa [List.append_assoc] at next
  exact started added [] [] Gathered.nil

private theorem absorb_of_parallel
    {edge head : Edge} (tail : List Edge)
    (parallel : head.isParallel edge = true) :
    (edge.absorb (head :: tail)).1 =
      { head with materials := mergeMaterials head.materials edge.materials } :: tail := by
  unfold absorb
  rw [if_pos parallel]

private theorem absorb_of_not_parallel
    {edge head : Edge} (tail : List Edge)
    (apart : ¬ head.isParallel edge = true) :
    (edge.absorb (head :: tail)).1 = head :: (edge.absorb tail).1 := by
  conv => lhs; unfold absorb
  rw [if_neg apart]

/-- Whether an edge leads to an item. -/
def leadsTo (consumer : Nat) (edge : Edge) : Bool :=
  decide (edge.consumer = consumer)

private theorem filter_absorb (edge : Edge) (held : List Edge) (consumer : Nat) :
    (edge.absorb held).1.filter (leadsTo consumer) =
      if edge.leadsTo consumer then
        (edge.absorb (held.filter (leadsTo consumer))).1
      else
        held.filter (leadsTo consumer) := by
  induction held with
  | nil =>
      by_cases into : edge.leadsTo consumer = true
      · rw [if_pos into]
        exact List.filter_cons_of_pos into
      · rw [if_neg into]
        exact List.filter_cons_of_neg into
  | cons head tail inductionHypothesis =>
      by_cases parallel : head.isParallel edge = true
      · have sameConsumer : head.leadsTo consumer = edge.leadsTo consumer := by
          unfold leadsTo
          rw [(isParallel_iff.mp parallel).2.1]
        rw [absorb_of_parallel tail parallel]
        by_cases into : edge.leadsTo consumer = true
        · have intoHead : head.leadsTo consumer = true := sameConsumer.trans into
          have intoMerged :
              leadsTo consumer
                { head with materials := mergeMaterials head.materials edge.materials } = true :=
            intoHead
          rw [if_pos into, List.filter_cons_of_pos intoMerged, List.filter_cons_of_pos intoHead,
            absorb_of_parallel _ parallel]
        · have elsewhere : ¬ head.leadsTo consumer = true := sameConsumer ▸ into
          have mergedElsewhere :
              ¬ leadsTo consumer
                { head with materials := mergeMaterials head.materials edge.materials } = true :=
            elsewhere
          rw [if_neg into, List.filter_cons_of_neg mergedElsewhere,
            List.filter_cons_of_neg elsewhere]
      · rw [absorb_of_not_parallel tail parallel]
        by_cases intoHead : head.leadsTo consumer = true
        · rw [List.filter_cons_of_pos intoHead, List.filter_cons_of_pos intoHead,
            inductionHypothesis, absorb_of_not_parallel _ parallel]
          by_cases into : edge.leadsTo consumer = true
          · rw [if_pos into, if_pos into]
          · rw [if_neg into, if_neg into]
        · rw [List.filter_cons_of_neg intoHead, List.filter_cons_of_neg intoHead,
            inductionHypothesis]

/-- The edges into an item depend only on what is added into that item. -/
theorem filter_gather (held added : List Edge) (consumer : Nat) :
    (gather held added).filter (leadsTo consumer) =
      gather (held.filter (leadsTo consumer)) (added.filter (leadsTo consumer)) := by
  induction added generalizing held with
  | nil => rfl
  | cons edge rest inductionHypothesis =>
      show (gather (edge.absorb held).1 rest).filter (leadsTo consumer) = _
      rw [inductionHypothesis, filter_absorb]
      by_cases into : edge.leadsTo consumer = true
      · rw [if_pos into, List.filter_cons_of_pos into]
        rfl
      · rw [if_neg into, List.filter_cons_of_neg into]

/-- The edge with its items named anew. -/
def renamed (place : Nat → Nat) (edge : Edge) : Edge :=
  { edge with producer := place edge.producer, consumer := place edge.consumer }

private theorem isParallel_renamed
    {place : Nat → Nat}
    (injective : Function.Injective place)
    (left right : Edge) :
    (left.renamed place).isParallel (right.renamed place) = left.isParallel right := by
  unfold isParallel renamed
  dsimp only
  rw [decide_eq_decide.mpr injective.eq_iff, decide_eq_decide.mpr injective.eq_iff]

private theorem absorb_renamed
    {place : Nat → Nat}
    (injective : Function.Injective place)
    (edge : Edge) (held : List Edge) :
    ((edge.renamed place).absorb (held.map (renamed place))).1 =
      (edge.absorb held).1.map (renamed place) := by
  induction held with
  | nil => rfl
  | cons head tail inductionHypothesis =>
      rw [List.map_cons]
      unfold absorb
      rw [isParallel_renamed injective]
      by_cases parallel : head.isParallel edge = true
      · rw [if_pos parallel, if_pos parallel]
        rfl
      · rw [if_neg parallel, if_neg parallel]
        dsimp only
        rw [inductionHypothesis, List.map_cons]

/-- Renaming the items renames the gathered edges. -/
theorem gather_renamed
    {place : Nat → Nat}
    (injective : Function.Injective place)
    (held added : List Edge) :
    gather (held.map (renamed place)) (added.map (renamed place)) =
      (gather held added).map (renamed place) := by
  induction added generalizing held with
  | nil => rfl
  | cons edge rest inductionHypothesis =>
      show gather ((edge.renamed place).absorb (held.map (renamed place))).1 _ = _
      rw [absorb_renamed injective, inductionHypothesis]
      rfl

end Edge

end MeshTasks
