import Mathlib.Algebra.Order.BigOperators.Group.List
import Mathlib.Data.Finite.Prod
import Mathlib.Data.Fintype.Card
import Mathlib.Data.List.Sort
import Mathlib.Data.Nat.SuccPred
import Mathlib.Logic.Relation
import MeshTasks.Proofs.Graph.Assembly
import MeshTasks.Proofs.Graph.Wavefront

/-!
# Wavefronts and longest paths

The depth of an item is the length of the longest path of the first execution
that ends at it. An item has a depth unless a loop leads to it, and its depth is
one more than the greatest depth among the items it waits for. Hence the
wavefronts list the items by depth, whatever the graph: an item that a loop
leads to is in none of them, and any other item is in the wavefront of its
depth.
-/

namespace MeshTasks

namespace TaskGraph

/-- A path of the first execution with so many edges ends at an item. -/
inductive PathTo (graph : TaskGraph) : Nat → Nat → Prop
  | start {id : Nat} (bound : id < graph.items.length) : PathTo graph 0 id
  | step {length earlier id : Nat} (path : PathTo graph length earlier)
      (before : graph.Before earlier id) : PathTo graph (length + 1) id

/-- A loop of the first execution leads to an item. -/
def LoopReaches (graph : TaskGraph) (id : Nat) : Prop :=
  ∃ source, Relation.TransGen graph.Before source source ∧
    Relation.ReflTransGen graph.Before source id

/-- The longest path of the first execution that ends at an item has so many
edges. -/
def HasDepth (graph : TaskGraph) (id depth : Nat) : Prop :=
  IsGreatest {length | graph.PathTo length id} depth

/-- The edges of the first execution lead from items of the graph to items of
the graph. -/
def Joins (graph : TaskGraph) : Prop :=
  ∀ edge ∈ graph.edges, edge.countsFirst = true →
    edge.producer < graph.items.length ∧ edge.consumer < graph.items.length

/-- A graph that is made by adding items, and edges between items that are
there. -/
def Grown (graph : TaskGraph) : Prop :=
  ∃ added, graph.AssembledFrom added

/-- A graph lists items by depth if each list holds the items of one depth in
ascending order, and goes on as long as there are any. -/
structure ByDepth (graph : TaskGraph) (fronts : List (List Nat)) : Prop where
  mem_iff : ∀ depth id,
    (∃ front, fronts[depth]? = some front ∧ id ∈ front) ↔ graph.HasDepth id depth
  inhabited : ∀ front ∈ fronts, front ≠ []
  ascending : ∀ front ∈ fronts, front.Pairwise (· < ·)

variable {graph : TaskGraph} {id depth : Nat}

theorem Grown.joins (grown : graph.Grown) : graph.Joins := by
  obtain ⟨added, assembled⟩ := grown
  intro edge member _
  obtain ⟨source, sourceMember, parallel⟩ := assembled.gathered.added_of_held edge member
  rw [parallel.1, parallel.2.1]
  exact assembled.joins source sourceMember

/-! ## Depths -/

section Depths

private theorem PathTo.bound
    {length : Nat}
    (joins : graph.Joins)
    (path : graph.PathTo length id) :
    id < graph.items.length := by
  cases path with
  | start bound => exact bound
  | step _ before =>
      obtain ⟨edge, member, counts, _, rfl⟩ := before
      exact (joins edge member counts).2

private theorem Before.bound
    {earlier later : Nat}
    (joins : graph.Joins)
    (before : graph.Before earlier later) :
    earlier < graph.items.length ∧ later < graph.items.length := by
  obtain ⟨edge, member, counts, rfl, rfl⟩ := before
  exact joins edge member counts

theorem HasDepth.bound (joins : graph.Joins) (hasDepth : graph.HasDepth id depth) :
    id < graph.items.length :=
  PathTo.bound joins hasDepth.1

theorem HasDepth.unique
    {other : Nat}
    (hasDepth : graph.HasDepth id depth)
    (hasOther : graph.HasDepth id other) :
    depth = other :=
  IsGreatest.unique hasDepth hasOther

/-- A bound on the paths to an item gives it a depth. -/
private theorem exists_depth_of_bounded
    (limit : Nat)
    (inGraph : id < graph.items.length)
    (bounded : ∀ length, graph.PathTo length id → length ≤ limit) :
    ∃ depth, graph.HasDepth id depth := by
  apply BddAbove.exists_isGreatest_of_nonempty
  · exact ⟨limit, fun length path => bounded length path⟩
  · exact ⟨0, .start inGraph⟩

/-- Whatever an item waits for has a lower depth. -/
theorem HasDepth.of_before
    {earlier : Nat}
    (joins : graph.Joins)
    (hasDepth : graph.HasDepth id depth)
    (before : graph.Before earlier id) :
    ∃ lower < depth, graph.HasDepth earlier lower := by
  have lower : ∀ length, graph.PathTo length earlier → length < depth :=
    fun length path => hasDepth.2 (PathTo.step path before)
  obtain ⟨found, isGreatest⟩ :=
    exists_depth_of_bounded depth (before.bound joins).1 fun length path =>
      Nat.le_of_lt (lower length path)
  exact ⟨found, lower found isGreatest.1, isGreatest⟩

/-- An item waits for one whose depth is just below its own. -/
private theorem HasDepth.exists_before
    (hasDepth : graph.HasDepth id (depth + 1)) :
    ∃ earlier, graph.Before earlier id ∧ graph.HasDepth earlier depth := by
  cases hasDepth.1 with
  | @step _ earlier _ path before =>
      refine ⟨earlier, before, path, fun length longer => ?_⟩
      exact Nat.le_of_succ_le_succ (hasDepth.2 (PathTo.step longer before))

/-- The depth of an item from those of the items that it waits for. -/
theorem hasDepth_of_before
    (inGraph : id < graph.items.length)
    (below : ∀ earlier, graph.Before earlier id → ∃ lower < depth, graph.HasDepth earlier lower)
    (attained : depth = 0 ∨
      ∃ earlier lower, graph.Before earlier id ∧ graph.HasDepth earlier lower ∧
        depth = lower + 1) :
    graph.HasDepth id depth := by
  constructor
  · rcases attained with rfl | ⟨earlier, lower, before, hasLower, rfl⟩
    · exact .start inGraph
    · exact PathTo.step hasLower.1 before
  · intro length path
    cases path with
    | start _ => exact Nat.zero_le depth
    | @step length earlier _ path before =>
        obtain ⟨lower, less, hasLower⟩ := below earlier before
        exact Nat.lt_of_le_of_lt (hasLower.2 path) less

/-- An item has a depth if all that it waits for has. -/
private theorem exists_depth_of_before
    (inGraph : id < graph.items.length)
    (each : ∀ earlier, graph.Before earlier id → ∃ lower, graph.HasDepth earlier lower) :
    ∃ depth, graph.HasDepth id depth := by
  choose! lower hasLower using each
  apply exists_depth_of_bounded (((graph.waitsFor id).map lower).sum + 1) inGraph
  intro length path
  cases path with
  | start _ => exact Nat.zero_le _
  | @step length earlier _ path before =>
      have atMost : length ≤ lower earlier := (hasLower earlier before).2 path
      have inSum : lower earlier ≤ ((graph.waitsFor id).map lower).sum := by
        apply List.le_sum_of_mem
        exact List.mem_map_of_mem (mem_waitsFor.mpr before)
      omega

private theorem PathTo.exists_of_reaches
    {source length : Nat}
    (path : graph.PathTo length source)
    (reaches : Relation.ReflTransGen graph.Before source id) :
    ∃ longer ≥ length, graph.PathTo longer id := by
  induction reaches with
  | refl => exact ⟨length, Nat.le_refl length, path⟩
  | tail _ before inductionHypothesis =>
      obtain ⟨longer, atLeast, path⟩ := inductionHypothesis
      exact ⟨longer + 1, Nat.le_succ_of_le atLeast, path.step before⟩

/-- Paths that go round a loop are as long as one likes. -/
private theorem exists_path_of_loop
    {source : Nat}
    (joins : graph.Joins)
    (loop : Relation.TransGen graph.Before source source)
    (length : Nat) :
    ∃ longer ≥ length, graph.PathTo longer source := by
  induction length with
  | zero =>
      obtain ⟨_, before, _⟩ := Relation.TransGen.head'_iff.mp loop
      exact ⟨0, Nat.le_refl 0, .start (before.bound joins).1⟩
  | succ length inductionHypothesis =>
      obtain ⟨longer, atLeast, path⟩ := inductionHypothesis
      obtain ⟨_, before, reaches⟩ := Relation.TransGen.head'_iff.mp loop
      obtain ⟨again, atLeastAgain, pathAgain⟩ := (path.step before).exists_of_reaches reaches
      exact ⟨again, by omega, pathAgain⟩

/-- By induction along the edges, which is well-founded on what leads to an item
that no loop leads to. -/
private theorem exists_depth_of_not_loopReaches
    (joins : graph.Joins)
    (inGraph : id < graph.items.length)
    (noLoop : ¬ graph.LoopReaches id) :
    ∃ depth, graph.HasDepth id depth := by
  let Ancestor : Type :=
    { place : Fin graph.items.length // Relation.ReflTransGen graph.Before place.val id }
  let leads (left right : Ancestor) : Prop :=
    Relation.TransGen graph.Before left.val.val right.val.val
  have transitive : IsTrans Ancestor leads := ⟨fun _ _ _ => Relation.TransGen.trans⟩
  have irreflexive : Std.Irrefl leads :=
    ⟨fun place loop => noLoop ⟨place.val.val, loop, place.property⟩⟩
  have finite : Finite Ancestor := Subtype.finite
  have wellFounded : WellFounded leads := Finite.wellFounded_of_trans_of_irrefl leads
  have everyAncestor : ∀ place : Ancestor, ∃ depth, graph.HasDepth place.val.val depth := by
    intro place
    induction place using wellFounded.induction with
    | _ place inductionHypothesis =>
        apply exists_depth_of_before place.val.isLt
        intro earlier before
        exact inductionHypothesis
          ⟨⟨earlier, (before.bound joins).1⟩, place.property.head before⟩ (.single before)
  exact everyAncestor ⟨⟨id, inGraph⟩, .refl⟩

/-- The items that have a depth are those that no loop leads to. -/
theorem exists_depth_iff
    (joins : graph.Joins) :
    (∃ depth, graph.HasDepth id depth) ↔
      id < graph.items.length ∧ ¬ graph.LoopReaches id := by
  constructor
  · rintro ⟨depth, hasDepth⟩
    refine ⟨hasDepth.bound joins, ?_⟩
    rintro ⟨source, loop, reaches⟩
    obtain ⟨_, atLeast, path⟩ := exists_path_of_loop joins loop (depth + 1)
    obtain ⟨_, stillAtLeast, pathOn⟩ := path.exists_of_reaches reaches
    have atMost := hasDepth.2 pathOn
    omega
  · rintro ⟨inGraph, noLoop⟩
    exact exists_depth_of_not_loopReaches joins inGraph noLoop

/-- Below a depth that some item has there are items of every depth. -/
private theorem HasDepth.exists_at
    {further : Nat}
    (hasDepth : graph.HasDepth id (depth + further)) :
    ∃ other, graph.HasDepth other depth := by
  induction further generalizing id with
  | zero => exact ⟨id, hasDepth⟩
  | succ further inductionHypothesis =>
      obtain ⟨_, _, hasLower⟩ := hasDepth.exists_before
      exact inductionHypothesis hasLower

end Depths

/-! ## Lists by depth -/

namespace ByDepth

variable {fronts others : List (List Nat)}

private theorem length_le
    (byDepth : graph.ByDepth fronts)
    (alsoByDepth : graph.ByDepth others) :
    fronts.length ≤ others.length := by
  by_contra longer
  have bound : others.length < fronts.length := by omega
  obtain ⟨id, member⟩ :=
    List.exists_mem_of_ne_nil _ (byDepth.inhabited _ (List.getElem_mem bound))
  have hasDepth :=
    (byDepth.mem_iff others.length id).mp ⟨_, List.getElem?_eq_getElem bound, member⟩
  obtain ⟨front, frontAt, _⟩ := (alsoByDepth.mem_iff others.length id).mpr hasDepth
  simp at frontAt

/-- There is one list of the items by depth. -/
theorem unique
    (byDepth : graph.ByDepth fronts)
    (alsoByDepth : graph.ByDepth others) :
    fronts = others := by
  apply List.ext_getElem
  · exact Nat.le_antisymm (byDepth.length_le alsoByDepth) (alsoByDepth.length_le byDepth)
  · intro place bound otherBound
    apply List.Pairwise.eq_of_mem_iff (byDepth.ascending _ (List.getElem_mem bound))
      (alsoByDepth.ascending _ (List.getElem_mem otherBound))
    intro id
    have left := byDepth.mem_iff place id
    have right := alsoByDepth.mem_iff place id
    simp only [List.getElem?_eq_getElem bound, Option.some.injEq, exists_eq_left'] at left
    simp only [List.getElem?_eq_getElem otherBound, Option.some.injEq, exists_eq_left'] at right
    rw [left, right]

theorem mem_flatten_iff (byDepth : graph.ByDepth fronts) :
    id ∈ fronts.flatten ↔ ∃ depth, graph.HasDepth id depth := by
  rw [List.mem_flatten]
  constructor
  · rintro ⟨front, member, inFront⟩
    obtain ⟨depth, frontAt⟩ := List.mem_iff_getElem?.mp member
    exact ⟨depth, (byDepth.mem_iff depth id).mp ⟨front, frontAt, inFront⟩⟩
  · rintro ⟨depth, hasDepth⟩
    obtain ⟨front, frontAt, inFront⟩ := (byDepth.mem_iff depth id).mpr hasDepth
    exact ⟨front, List.mem_of_getElem? frontAt, inFront⟩

theorem nodup_flatten (byDepth : graph.ByDepth fronts) : fronts.flatten.Nodup := by
  rw [List.nodup_flatten]
  refine ⟨fun front member => (byDepth.ascending front member).imp Nat.ne_of_lt, ?_⟩
  rw [List.pairwise_iff_getElem]
  intro left right leftBound rightBound less id inLeft inRight
  have atLeft :=
    (byDepth.mem_iff left id).mp ⟨_, List.getElem?_eq_getElem leftBound, inLeft⟩
  have atRight :=
    (byDepth.mem_iff right id).mp ⟨_, List.getElem?_eq_getElem rightBound, inRight⟩
  exact Nat.ne_of_lt less (atLeft.unique atRight)

end ByDepth

/-! ## Wavefronts -/

section Wavefronts

variable {done : List Nat}

/-- The items that have run are those of lower depth. -/
def RanBelow (graph : TaskGraph) (done : List Nat) (depth : Nat) : Prop :=
  ∀ id, id ∈ done ↔ ∃ lower < depth, graph.HasDepth id lower

/-- If the items of lower depth have run, then the items of the depth are
next. -/
private theorem RanBelow.mem_nextWavefront
    (joins : graph.Joins)
    (ranBelow : graph.RanBelow done depth) :
    id ∈ graph.nextWavefront done ↔ graph.HasDepth id depth := by
  rw [TaskGraph.mem_nextWavefront, ranBelow]
  simp only [mem_waitsFor, ranBelow _]
  constructor
  · rintro ⟨inGraph, notBelow, waited⟩
    obtain ⟨found, hasDepth⟩ :=
      exists_depth_of_before inGraph fun earlier before =>
        (waited earlier before).imp fun _ both => both.2
    have atLeast : depth ≤ found := by
      by_contra less
      exact notBelow ⟨found, by omega, hasDepth⟩
    have atMost : found ≤ depth := by
      cases found with
      | zero => exact Nat.zero_le depth
      | succ found =>
          obtain ⟨earlier, before, hasFound⟩ := hasDepth.exists_before
          obtain ⟨lower, less, hasLower⟩ := waited earlier before
          rw [hasFound.unique hasLower]
          exact less
    rwa [Nat.le_antisymm atLeast atMost]
  · intro hasDepth
    refine ⟨hasDepth.bound joins, ?_, fun earlier before => hasDepth.of_before joins before⟩
    rintro ⟨lower, less, hasLower⟩
    exact Nat.ne_of_lt less (hasLower.unique hasDepth)

private theorem RanBelow.append
    (joins : graph.Joins)
    (ranBelow : graph.RanBelow done depth) :
    graph.RanBelow (done ++ graph.nextWavefront done) (depth + 1) := by
  intro id
  simp only [List.mem_append, ranBelow id, ranBelow.mem_nextWavefront joins,
    Nat.lt_succ_iff_lt_or_eq, or_and_right, exists_or, exists_eq_left]

/-- By induction on the wavefronts that are left. -/
private theorem RanBelow.mem_wavefrontsAfter
    (joins : graph.Joins)
    {fuel : Nat}
    (ranBelow : graph.RanBelow done depth)
    (enough : (graph.remaining done).length ≤ fuel)
    (further : Nat) :
    (∃ front, (graph.wavefrontsAfter fuel done)[further]? = some front ∧ id ∈ front) ↔
      graph.HasDepth id (depth + further) := by
  induction fuel generalizing done depth further with
  | zero =>
      simp only [wavefrontsAfter, List.getElem?_nil, reduceCtorEq, false_and, exists_false,
        false_iff]
      intro hasDepth
      have nothing := List.eq_nil_of_length_eq_zero (Nat.le_zero.mp enough)
      have remains : id ∈ graph.remaining done := by
        rw [mem_remaining, ranBelow]
        refine ⟨hasDepth.bound joins, ?_⟩
        rintro ⟨lower, less, hasLower⟩
        have same := hasLower.unique hasDepth
        omega
      simp [nothing] at remains
  | succ fuel inductionHypothesis =>
      have split := (graph.remaining_perm_append done).length_eq
      rw [List.length_append] at split
      unfold wavefrontsAfter
      dsimp only
      cases ended : (graph.nextWavefront done).isEmpty with
      | true =>
          rw [List.isEmpty_iff] at ended
          simp only [if_pos, List.getElem?_nil, reduceCtorEq, false_and, exists_false, false_iff]
          intro hasDepth
          obtain ⟨other, hasOther⟩ := hasDepth.exists_at
          have isNext := (ranBelow.mem_nextWavefront joins).mpr hasOther
          simp [ended] at isNext
      | false =>
          rw [if_neg Bool.false_ne_true]
          cases further with
          | zero => simp [ranBelow.mem_nextWavefront joins]
          | succ further =>
              have some_next : 0 < (graph.nextWavefront done).length := by
                rw [List.length_pos_iff, ne_eq, ← List.isEmpty_iff, ended]
                exact Bool.false_ne_true
              have onward :=
                inductionHypothesis (ranBelow.append joins) (by omega) further
              rw [List.getElem?_cons_succ, onward, Nat.add_right_comm, Nat.add_assoc]

private theorem wavefrontsAfter_spec
    {fuel : Nat} {front : List Nat}
    (member : front ∈ graph.wavefrontsAfter fuel done) :
    front ≠ [] ∧ front.Pairwise (· < ·) := by
  induction fuel generalizing done with
  | zero => simp [wavefrontsAfter] at member
  | succ fuel inductionHypothesis =>
      unfold wavefrontsAfter at member
      dsimp only at member
      cases ended : (graph.nextWavefront done).isEmpty with
      | true => simp [ended] at member
      | false =>
          rw [ended, if_neg Bool.false_ne_true, List.mem_cons] at member
          rcases member with rfl | later
          · refine ⟨fun nothing => ?_, List.pairwise_lt_range.filter _⟩
            simp [nothing] at ended
          · exact inductionHypothesis later

/-- The wavefronts list the items by depth. -/
theorem byDepth_wavefronts (joins : graph.Joins) : graph.ByDepth graph.wavefronts where
  mem_iff := by
    intro depth id
    have noneRan : graph.RanBelow [] 0 := by
      simp [RanBelow]
    have enough : (graph.remaining []).length ≤ graph.items.length := by
      simp [remaining]
    simpa [wavefronts] using noneRan.mem_wavefrontsAfter joins enough depth
  inhabited := fun _ member => (wavefrontsAfter_spec member).1
  ascending := fun _ member => (wavefrontsAfter_spec member).2

/-- What an item waits for is in an earlier wavefront. -/
theorem exists_wavefronts_of_before
    {earlier later : Nat}
    (joins : graph.Joins)
    (before : graph.Before earlier later)
    (noLoop : ¬ graph.LoopReaches later) :
    ∃ (lower upper : Nat) (front back : List Nat), lower < upper ∧
      graph.wavefronts[lower]? = some front ∧ earlier ∈ front ∧
        graph.wavefronts[upper]? = some back ∧ later ∈ back := by
  have byDepth := byDepth_wavefronts joins
  obtain ⟨upper, hasUpper⟩ := (exists_depth_iff joins).mpr ⟨(before.bound joins).2, noLoop⟩
  obtain ⟨lower, less, hasLower⟩ := hasUpper.of_before joins before
  obtain ⟨front, frontAt, inFront⟩ := (byDepth.mem_iff lower earlier).mpr hasLower
  obtain ⟨back, backAt, inBack⟩ := (byDepth.mem_iff upper later).mpr hasUpper
  exact ⟨lower, upper, front, back, less, frontAt, inFront, backAt, inBack⟩

end Wavefronts

/-! ## Graphs without loops -/

section Ascending

/-- Whatever respects the edges respects the paths. -/
theorem lt_of_path
    {earlier later : Nat}
    (path : Relation.TransGen graph.Before earlier later)
    (time : Nat → Nat)
    (respected : ∀ edge ∈ graph.edges, edge.countsFirst = true →
      time edge.producer < time edge.consumer) :
    time earlier < time later := by
  have step : ∀ {first second : Nat}, graph.Before first second → time first < time second := by
    intro first second before
    obtain ⟨edge, member, counts, rfl, rfl⟩ := before
    exact respected edge member counts
  induction path with
  | single before => exact step before
  | tail _ before inductionHypothesis => exact Nat.lt_trans inductionHypothesis (step before)

/-- If every edge of the first execution leads upwards, then there is no
loop. -/
theorem not_loopReaches_of_ascends
    (height : Nat → Nat)
    (ascends : ∀ edge ∈ graph.edges, edge.countsFirst = true →
      height edge.producer < height edge.consumer)
    (id : Nat) :
    ¬ graph.LoopReaches id := by
  rintro ⟨source, loop, _⟩
  exact Nat.lt_irrefl _ (lt_of_path loop height ascends)

/-- Without loops the wavefronts hold every item once. -/
theorem flatten_wavefronts_perm
    (joins : graph.Joins)
    (noLoop : ∀ id, ¬ graph.LoopReaches id) :
    graph.wavefronts.flatten.Perm (List.range graph.items.length) := by
  have byDepth := byDepth_wavefronts joins
  rw [List.perm_ext_iff_of_nodup byDepth.nodup_flatten List.nodup_range]
  intro id
  rw [byDepth.mem_flatten_iff, exists_depth_iff joins, List.mem_range]
  exact and_iff_left (noLoop id)

end Ascending

end TaskGraph

end MeshTasks
