import MeshTasks.Graph.Release
import MeshTasks.Proofs.Graph.LongestPaths

/-!
# Released items run by depth

`Release.Sound` relates a state to the edges that are left to be followed.
Following one edge keeps it, and so does working off an item. In such a state
every released item stands at the level of its depth, whatever the order in
which items were worked off. At the end nothing is left to be worked off, and
the groups list the items by depth.
-/

namespace MeshTasks

namespace Release

section Put

variable {id level place : Nat} {groups : List (List Nat)} {group : List Nat}

private theorem flatten_put_perm (id level : Nat) (groups : List (List Nat)) :
    (put id level groups).flatten.Perm (id :: groups.flatten) := by
  induction level, groups using put.induct with
  | case1 => simp [put]
  | case2 group groups => simp [put]
  | case3 level inductionHypothesis => simpa [put] using inductionHypothesis
  | case4 level group groups inductionHypothesis =>
      simpa [put] using
        (inductionHypothesis.append_left group).trans List.perm_middle

/-- What is in a group is the item added, or was there before. -/
private theorem mem_of_getElem?_put
    {member : Nat}
    (groupAt : (put id level groups)[place]? = some group)
    (inGroup : member ∈ group) :
    member = id ∧ place = level ∨ ∃ before, groups[place]? = some before ∧ member ∈ before := by
  induction level, groups using put.induct generalizing place with
  | case1 =>
      cases place with
      | zero =>
          simp only [put, List.getElem?_cons_zero, Option.some.injEq] at groupAt
          subst groupAt
          simpa using inGroup
      | succ place => simp [put] at groupAt
  | case2 held groups =>
      cases place with
      | zero =>
          simp only [put, List.getElem?_cons_zero, Option.some.injEq] at groupAt
          subst groupAt
          simpa [or_comm] using inGroup
      | succ place => exact Or.inr ⟨group, groupAt, inGroup⟩
  | case3 level inductionHypothesis =>
      cases place with
      | zero => simp_all [put]
      | succ place => simpa using inductionHypothesis groupAt
  | case4 level held groups inductionHypothesis =>
      cases place with
      | zero => exact Or.inr ⟨group, groupAt, inGroup⟩
      | succ place => simpa using inductionHypothesis groupAt

/-- No group is missing if there are as many as the level. -/
private theorem ne_nil_of_mem_put
    (inhabited : ∀ group ∈ groups, group ≠ [])
    (reached : level ≤ groups.length) :
    ∀ group ∈ put id level groups, group ≠ [] := by
  induction level, groups using put.induct with
  | case1 => simp [put]
  | case2 held groups => simp_all [put]
  | case3 level _ => simp at reached
  | case4 level held groups inductionHypothesis => simp_all [put]

end Put

section Follow

variable (state : Release) (level : Nat) (edge : Edge) {id : Nat}

@[simp]
theorem done_follow : (state.follow level edge).done = state.done :=
  rfl

theorem ready_follow :
    (state.follow level edge).ready =
      if state.pending edge.consumer - 1 = 0 then edge.consumer :: state.ready
      else state.ready :=
  rfl

@[simp]
theorem pending_follow_consumer :
    (state.follow level edge).pending edge.consumer = state.pending edge.consumer - 1 :=
  if_pos rfl

@[simp]
theorem level_follow_consumer :
    (state.follow level edge).level edge.consumer =
      max (state.level edge.consumer) (level + 1) :=
  if_pos rfl

variable {edge}

theorem pending_follow_of_ne (different : id ≠ edge.consumer) :
    (state.follow level edge).pending id = state.pending id :=
  if_neg different

theorem level_follow_of_ne (different : id ≠ edge.consumer) :
    (state.follow level edge).level id = state.level id :=
  if_neg different

end Follow

/-- What holds of a state while some edges are left to be followed. -/
structure Sound (graph : TaskGraph) (left : List Edge) (state : Release) : Prop where
  nodup : (state.ready ++ state.done).Nodup
  released_iff : ∀ id, id ∈ state.ready ++ state.done ↔
    id < graph.items.length ∧ state.pending id = 0
  pending_eq : ∀ id, state.pending id = left.countP (Edge.leadsTo id)
  followed : ∀ edge ∈ graph.edges, edge.countsFirst = true →
    edge ∈ left ∨
      edge.producer ∈ state.done ∧ state.level edge.producer < state.level edge.consumer
  attained : ∀ id, state.level id = 0 ∨
    ∃ producer ∈ state.done, graph.Before producer id ∧
      state.level id = state.level producer + 1
  level_eq : ∀ place group, state.groups[place]? = some group →
    ∀ id ∈ group, state.level id = place
  inhabited : ∀ group ∈ state.groups, group ≠ []

/-- The edges of the first execution out of items that are not worked off. -/
def edgesLeft (graph : TaskGraph) (done : List Nat) : List Edge :=
  graph.edges.filter fun edge => decide (edge.producer ∉ done) && edge.countsFirst

namespace Sound

variable {graph : TaskGraph} {state next : Release} {left other : List Edge} {id : Nat}

private theorem perm
    (sound : Sound graph left state)
    (permuted : left.Perm other) :
    Sound graph other state where
  nodup := sound.nodup
  released_iff := sound.released_iff
  pending_eq := by
    intro id
    rw [sound.pending_eq, permuted.countP_eq]
  followed := by
    intro edge member counts
    rw [← permuted.mem_iff]
    exact sound.followed edge member counts
  attained := sound.attained
  level_eq := sound.level_eq
  inhabited := sound.inhabited

/-- Every edge into a released item has been followed. -/
private theorem followed_of_released
    (sound : Sound graph left state)
    (released : id ∈ state.ready ++ state.done)
    {producer : Nat}
    (before : graph.Before producer id) :
    producer ∈ state.done ∧ state.level producer < state.level id := by
  obtain ⟨edge, member, counts, rfl, rfl⟩ := before
  have nothingLeft := ((sound.released_iff _).mp released).2
  rw [sound.pending_eq, List.countP_eq_zero] at nothingLeft
  rcases sound.followed edge member counts with isLeft | followed
  · exact absurd (decide_eq_true rfl) (nothingLeft edge isLeft)
  · exact followed

/-- A released item stands at the level of its depth: by induction on the
level. -/
theorem hasDepth
    (sound : Sound graph left state)
    (released : id ∈ state.ready ++ state.done) :
    graph.HasDepth id (state.level id) := by
  induction level : state.level id using Nat.strongRecOn generalizing id with
  | ind level inductionHypothesis =>
      subst level
      have ofDone : ∀ producer ∈ state.done, state.level producer < state.level id →
          graph.HasDepth producer (state.level producer) := by
        intro producer isDone lower
        exact inductionHypothesis _ lower (List.mem_append_right _ isDone) rfl
      apply TaskGraph.hasDepth_of_before ((sound.released_iff id).mp released).1
      · intro producer before
        obtain ⟨isDone, lower⟩ := sound.followed_of_released released before
        exact ⟨_, lower, ofDone producer isDone lower⟩
      · refine (sound.attained id).imp_right ?_
        rintro ⟨producer, isDone, before, levelEq⟩
        exact ⟨producer, _, before, ofDone producer isDone (by omega), levelEq⟩

/-- An edge that is left leads to an item that is not released. -/
private theorem consumer_not_released
    {edge : Edge}
    (sound : Sound graph (edge :: left) state) :
    edge.consumer ∉ state.ready ++ state.done := by
  intro released
  have nothingLeft := ((sound.released_iff _).mp released).2
  rw [sound.pending_eq, List.countP_eq_zero] at nothingLeft
  exact nothingLeft edge List.mem_cons_self (decide_eq_true rfl)

section Following

variable {edge : Edge}

private theorem ne_consumer_of_done
    (sound : Sound graph (edge :: left) state)
    (isDone : id ∈ state.done) :
    id ≠ edge.consumer := by
  rintro rfl
  exact sound.consumer_not_released (List.mem_append_right _ isDone)

/-- The consumer is released with the last edge into it. -/
private theorem released_follow_iff
    (joins : graph.Joins)
    (sound : Sound graph (edge :: left) state)
    (member : edge ∈ graph.edges)
    (counts : edge.countsFirst = true)
    (level : Nat) :
    id ∈ (state.follow level edge).ready ++ state.done ↔
      id < graph.items.length ∧ (state.follow level edge).pending id = 0 := by
  rw [ready_follow]
  by_cases same : id = edge.consumer
  · subst same
    rw [pending_follow_consumer]
    by_cases last : state.pending edge.consumer - 1 = 0
    · simp [last, (joins edge member counts).2]
    · simpa [last] using sound.consumer_not_released
  · rw [pending_follow_of_ne _ _ same, ← sound.released_iff id]
    split
    · simp [same]
    · rfl

/-- The consumer comes to stand above the producer, and nothing is lowered. -/
private theorem followed_follow
    (sound : Sound graph (edge :: left) state)
    (producerDone : edge.producer ∈ state.done)
    {other : Edge}
    (member : other ∈ graph.edges)
    (counts : other.countsFirst = true) :
    other ∈ left ∨
      other.producer ∈ state.done ∧
        (state.follow (state.level edge.producer) edge).level other.producer <
          (state.follow (state.level edge.producer) edge).level other.consumer := by
  by_cases itself : other = edge
  · subst itself
    right
    rw [level_follow_of_ne _ _ (sound.ne_consumer_of_done producerDone), level_follow_consumer]
    exact ⟨producerDone, by omega⟩
  · refine (sound.followed other member counts).imp (fun isLeft => ?_) ?_
    · exact (List.mem_cons.mp isLeft).resolve_left itself
    · rintro ⟨otherDone, lower⟩
      refine ⟨otherDone, ?_⟩
      rw [level_follow_of_ne _ _ (sound.ne_consumer_of_done otherDone)]
      by_cases same : other.consumer = edge.consumer
      · rw [same] at lower ⊢
        rw [level_follow_consumer]
        omega
      · rwa [level_follow_of_ne _ _ same]

/-- A level above the lowest is due to the edge followed, or to one before
it. -/
private theorem attained_follow
    (sound : Sound graph (edge :: left) state)
    (member : edge ∈ graph.edges)
    (counts : edge.countsFirst = true)
    (producerDone : edge.producer ∈ state.done)
    (id : Nat) :
    (state.follow (state.level edge.producer) edge).level id = 0 ∨
      ∃ producer ∈ state.done, graph.Before producer id ∧
        (state.follow (state.level edge.producer) edge).level id =
          (state.follow (state.level edge.producer) edge).level producer + 1 := by
  by_cases raised : id = edge.consumer ∧ state.level id ≤ state.level edge.producer + 1
  · obtain ⟨rfl, higher⟩ := raised
    right
    refine ⟨edge.producer, producerDone, ⟨edge, member, counts, rfl, rfl⟩, ?_⟩
    rw [level_follow_of_ne _ _ (sound.ne_consumer_of_done producerDone), level_follow_consumer,
      max_eq_right higher]
  · have sameLevel :
        (state.follow (state.level edge.producer) edge).level id = state.level id := by
      by_cases same : id = edge.consumer
      · subst same
        rw [level_follow_consumer]
        omega
      · exact level_follow_of_ne _ _ same
    rw [sameLevel]
    refine (sound.attained id).imp_right ?_
    rintro ⟨producer, isDone, before, levelEq⟩
    refine ⟨producer, isDone, before, ?_⟩
    rwa [level_follow_of_ne _ _ (sound.ne_consumer_of_done isDone)]

/-- Following an edge leaves the other edges to be followed. -/
theorem follow
    (joins : graph.Joins)
    (sound : Sound graph (edge :: left) state)
    (member : edge ∈ graph.edges)
    (counts : edge.countsFirst = true)
    (producerDone : edge.producer ∈ state.done) :
    Sound graph left (state.follow (state.level edge.producer) edge) where
  nodup := by
    rw [done_follow, ready_follow]
    split
    · exact List.nodup_cons.mpr ⟨sound.consumer_not_released, sound.nodup⟩
    · exact sound.nodup
  released_iff := fun _ => sound.released_follow_iff joins member counts _
  pending_eq := by
    intro id
    have before := sound.pending_eq id
    by_cases same : id = edge.consumer
    · subst same
      rw [List.countP_cons_of_pos (by simp [Edge.leadsTo])] at before
      rw [pending_follow_consumer]
      omega
    · rw [List.countP_cons_of_neg (by simpa [Edge.leadsTo] using Ne.symm same)] at before
      rw [pending_follow_of_ne _ _ same, before]
  followed := fun _ => sound.followed_follow producerDone
  attained := sound.attained_follow member counts producerDone
  level_eq := by
    intro place group groupAt id inGroup
    have isDone : id ∈ state.done :=
      List.mem_flatten.mpr ⟨group, List.mem_of_getElem? groupAt, inGroup⟩
    rw [level_follow_of_ne _ _ (sound.ne_consumer_of_done isDone)]
    exact sound.level_eq place group groupAt id inGroup
  inhabited := sound.inhabited

end Following

/-- The groups reach up to the level of a released item. -/
private theorem level_le
    (sound : Sound graph left state)
    (id : Nat) :
    state.level id ≤ state.groups.length := by
  rcases sound.attained id with isZero | ⟨producer, isDone, _, levelEq⟩
  · omega
  · obtain ⟨group, member, inGroup⟩ := List.mem_flatten.mp isDone
    obtain ⟨place, groupAt⟩ := List.mem_iff_getElem?.mp member
    obtain ⟨bound, _⟩ := List.getElem?_eq_some_iff.mp groupAt
    have producerLevel := sound.level_eq place group groupAt producer inGroup
    omega

/-- Working off the item on top leaves the edges out of it to be followed. -/
theorem work
    {rest : List Nat}
    (sound : Sound graph left state)
    (top : state.ready = id :: rest) :
    Sound graph left
      { state with ready := rest, groups := put id (state.level id) state.groups } := by
  have doneLater : (put id (state.level id) state.groups).flatten.Perm (id :: state.done) :=
    flatten_put_perm id (state.level id) state.groups
  have stillDone : ∀ other ∈ state.done,
      other ∈ (put id (state.level id) state.groups).flatten := by
    intro other isDone
    exact doneLater.mem_iff.mpr (List.mem_cons_of_mem id isDone)
  have moved :
      (rest ++ (put id (state.level id) state.groups).flatten).Perm
        (state.ready ++ state.done) := by
    rw [top]
    exact (doneLater.append_left rest).trans List.perm_middle
  constructor
  case nodup => exact moved.nodup_iff.mpr sound.nodup
  case released_iff =>
    intro other
    exact moved.mem_iff.trans (sound.released_iff other)
  case pending_eq => exact sound.pending_eq
  case followed =>
    intro edge member counts
    refine (sound.followed edge member counts).imp_right ?_
    exact And.imp_left (stillDone edge.producer)
  case attained =>
    intro other
    refine (sound.attained other).imp_right ?_
    rintro ⟨producer, isDone, before, levelEq⟩
    exact ⟨producer, stillDone producer isDone, before, levelEq⟩
  case level_eq =>
    intro place group groupAt other inGroup
    rcases mem_of_getElem?_put groupAt inGroup with ⟨rfl, rfl⟩ | ⟨before, beforeAt, inBefore⟩
    · rfl
    · exact sound.level_eq place before beforeAt other inBefore
  case inhabited => exact ne_nil_of_mem_put sound.inhabited (sound.level_le id)

/-- All edges out of an item that is worked off are followed one by one. -/
theorem foldl_follow
    {edges rest : List Edge} {level : Nat}
    (joins : graph.Joins)
    (sound : Sound graph (edges ++ rest) state)
    (isDone : id ∈ state.done)
    (levelEq : state.level id = level)
    (outOf : ∀ edge ∈ edges,
      edge ∈ graph.edges ∧ edge.countsFirst = true ∧ edge.producer = id) :
    Sound graph rest (edges.foldl (Release.follow level) state) ∧
      (edges.foldl (Release.follow level) state).done = state.done := by
  induction edges generalizing state with
  | nil => exact ⟨sound, rfl⟩
  | cons edge edges inductionHypothesis =>
      obtain ⟨member, counts, rfl⟩ := outOf edge List.mem_cons_self
      subst levelEq
      have stays :
          (state.follow (state.level edge.producer) edge).level edge.producer =
            state.level edge.producer := by
        apply level_follow_of_ne
        intro same
        apply sound.consumer_not_released
        rw [← same]
        exact List.mem_append_right _ isDone
      exact inductionHypothesis (sound.follow joins member counts isDone) isDone stays
        fun other otherMember => outOf other (List.mem_cons_of_mem edge otherMember)

end Sound

section Steps

variable {graph : TaskGraph} {state next : Release} {id : Nat}

/-- The edges that are left are those out of the next item, and those left after
it. -/
private theorem edgesLeft_perm
    (graph : TaskGraph)
    {before after : List Nat}
    (notBefore : id ∉ before)
    (after_iff : ∀ other, other ∈ after ↔ other = id ∨ other ∈ before) :
    (edgesLeft graph before).Perm (graph.edgesOut id ++ edgesLeft graph after) := by
  have outOf :
      graph.edgesOut id =
        ((edgesLeft graph before).filter fun edge => decide (edge.producer = id)).reverse := by
    unfold TaskGraph.edgesOut edgesLeft
    rw [List.filter_filter]
    congr 1
    apply List.filter_congr
    intro edge _
    by_cases same : edge.producer = id
    · simp [same, notBefore]
    · simp [same]
  have others :
      edgesLeft graph after =
        (edgesLeft graph before).filter fun edge => !decide (edge.producer = id) := by
    unfold edgesLeft
    rw [List.filter_filter]
    apply List.filter_congr
    intro edge _
    by_cases same : edge.producer = id
    · simp [same, after_iff]
    · simp [same, after_iff]
  rw [outOf, others]
  exact (List.filter_append_perm _ _).symm.trans
    ((List.reverse_perm _).symm.append_right _)

/-- One step works off one item and follows all edges out of it. -/
theorem Sound.step
    (joins : graph.Joins)
    (sound : Sound graph (edgesLeft graph state.done) state)
    (stepped : state.step graph = some next) :
    Sound graph (edgesLeft graph next.done) next ∧
      next.done.length = state.done.length + 1 := by
  unfold Release.step at stepped
  cases top : state.ready with
  | nil => simp [top] at stepped
  | cons id rest =>
      rw [top, Option.some.injEq] at stepped
      have notDone : id ∉ state.done := by
        have apart := sound.nodup
        rw [top, List.cons_append, List.nodup_cons, List.mem_append, not_or] at apart
        exact apart.1.2
      have doneLater :
          (put id (state.level id) state.groups).flatten.Perm (id :: state.done) :=
        flatten_put_perm id (state.level id) state.groups
      have isDone : id ∈ (put id (state.level id) state.groups).flatten :=
        doneLater.mem_iff.mpr List.mem_cons_self
      have left_perm :=
        edgesLeft_perm graph notDone fun other =>
          doneLater.mem_iff.trans List.mem_cons
      have outOf : ∀ edge ∈ graph.edgesOut id,
          edge ∈ graph.edges ∧ edge.countsFirst = true ∧ edge.producer = id := by
        intro edge member
        simp only [TaskGraph.edgesOut, List.mem_reverse, List.mem_filter, Bool.and_eq_true,
          decide_eq_true_eq] at member
        exact ⟨member.1, member.2.2, member.2.1⟩
      obtain ⟨followed, sameDone⟩ :=
        ((sound.work top).perm left_perm).foldl_follow joins isDone rfl outOf
      rw [stepped] at followed sameDone
      rw [sameDone]
      exact ⟨followed, doneLater.length_eq⟩

/-- At the start all edges are left. -/
theorem sound_start (graph : TaskGraph) :
    Sound graph (edgesLeft graph (start graph).done) (start graph) := by
  have noneDone : (start graph).done = [] := rfl
  have readyPerm :
      (start graph).ready.Perm
        ((List.range graph.items.length).filter fun id =>
          decide ((graph.waitsFor id).length = 0)) :=
    (List.reverse_perm _).trans (graph.executionOrder_perm.filter _)
  rw [noneDone]
  constructor
  case nodup =>
    rw [noneDone, List.append_nil, readyPerm.nodup_iff]
    exact List.nodup_range.filter _
  case released_iff =>
    intro id
    rw [noneDone, List.append_nil, readyPerm.mem_iff]
    simp [start]
  case pending_eq =>
    intro id
    simp [start, TaskGraph.waitsFor, edgesLeft, List.countP_eq_length_filter, Edge.leadsTo]
  case followed =>
    intro edge member counts
    simp [edgesLeft, member, counts]
  case attained => exact fun _ => Or.inl rfl
  case level_eq => simp [start]
  case inhabited => simp [start]

/-- With as many steps as there are items to be worked off, nothing is left on
the stack. -/
theorem Sound.run
    {fuel : Nat}
    (joins : graph.Joins)
    (sound : Sound graph (edgesLeft graph state.done) state)
    (enough : graph.items.length ≤ fuel + state.done.length) :
    Sound graph (edgesLeft graph (run graph fuel state).done) (run graph fuel state) ∧
      (run graph fuel state).ready = [] := by
  induction fuel generalizing state with
  | zero =>
      refine ⟨sound, ?_⟩
      have inGraph : state.ready ++ state.done ⊆ List.range graph.items.length := by
        intro id released
        exact List.mem_range.mpr ((sound.released_iff id).mp released).1
      have atMost := (sound.nodup.subperm inGraph).length_le
      rw [List.length_append, List.length_range] at atMost
      apply List.eq_nil_of_length_eq_zero
      show state.ready.length = 0
      omega
  | succ fuel inductionHypothesis =>
      unfold Release.run
      cases stepped : state.step graph with
      | none =>
          refine ⟨sound, ?_⟩
          unfold Release.step at stepped
          cases top : state.ready with
          | nil => rfl
          | cons id rest => simp [top] at stepped
      | some next =>
          obtain ⟨nextSound, oneMore⟩ := sound.step joins stepped
          exact inductionHypothesis nextSound (by omega)

end Steps

end Release

namespace TaskGraph

variable {graph : TaskGraph}

theorem released_spec (joins : graph.Joins) :
    Release.Sound graph (Release.edgesLeft graph graph.released.done) graph.released ∧
      graph.released.ready = [] :=
  (Release.sound_start graph).run joins (Nat.le_add_right _ _)

/-- An item that has a depth is worked off: by induction on the depth. -/
theorem HasDepth.mem_done
    {id depth : Nat}
    (joins : graph.Joins)
    (hasDepth : graph.HasDepth id depth) :
    id ∈ graph.released.done := by
  obtain ⟨sound, nothingReady⟩ := released_spec joins
  induction depth using Nat.strongRecOn generalizing id with
  | ind depth inductionHypothesis =>
      have released : id ∈ graph.released.ready ++ graph.released.done := by
        rw [sound.released_iff, sound.pending_eq, List.countP_eq_zero]
        refine ⟨hasDepth.bound joins, fun edge isLeft leads => ?_⟩
        simp only [Release.edgesLeft, List.mem_filter, Bool.and_eq_true,
          decide_eq_true_eq] at isLeft
        obtain ⟨member, notDone, counts⟩ := isLeft
        obtain ⟨lower, less, hasLower⟩ :=
          hasDepth.of_before joins ⟨edge, member, counts, rfl, of_decide_eq_true leads⟩
        exact notDone (inductionHypothesis lower less hasLower)
      rwa [nothingReady, List.nil_append] at released

/-- The groups list the items by depth. -/
theorem byDepth_parallelGroups (joins : graph.Joins) : graph.ByDepth graph.parallelGroups := by
  obtain ⟨sound, _⟩ := released_spec joins
  constructor
  case mem_iff =>
    intro depth id
    have sameMembers :
        (∃ front, graph.parallelGroups[depth]? = some front ∧ id ∈ front) ↔
          ∃ group, graph.released.groups[depth]? = some group ∧ id ∈ group := by
      simp [parallelGroups, List.mem_mergeSort]
    rw [sameMembers]
    constructor
    · rintro ⟨group, groupAt, inGroup⟩
      have isDone : id ∈ graph.released.done :=
        List.mem_flatten.mpr ⟨group, List.mem_of_getElem? groupAt, inGroup⟩
      rw [← sound.level_eq depth group groupAt id inGroup]
      exact sound.hasDepth (List.mem_append_right _ isDone)
    · intro hasDepth
      obtain ⟨group, member, inGroup⟩ := List.mem_flatten.mp (hasDepth.mem_done joins)
      obtain ⟨place, groupAt⟩ := List.mem_iff_getElem?.mp member
      have atPlace : graph.HasDepth id place := by
        rw [← sound.level_eq place group groupAt id inGroup]
        exact sound.hasDepth (List.mem_append_right _ (hasDepth.mem_done joins))
      rw [hasDepth.unique atPlace]
      exact ⟨group, groupAt, inGroup⟩
  case inhabited =>
    intro front member
    obtain ⟨group, groupMember, rfl⟩ := List.mem_map.mp member
    rw [ne_eq, ← List.length_eq_zero_iff, List.length_mergeSort, List.length_eq_zero_iff]
    exact sound.inhabited group groupMember
  case ascending =>
    intro front member
    obtain ⟨group, groupMember, rfl⟩ := List.mem_map.mp member
    have nodup : group.Nodup :=
      (List.nodup_flatten.mp (List.nodup_append.mp sound.nodup).2.1).1 group groupMember
    have sorted := List.pairwise_mergeSort' (· ≤ ·) group
    have stillNodup :=
      (List.mergeSort_perm group fun left right => decide (left ≤ right)).nodup_iff.mpr nodup
    exact sorted.imp₂ (fun _ _ => Nat.lt_of_le_of_ne) stillNodup

/-- There is one way to list the items by depth, so the work finds the
wavefronts. -/
theorem parallelGroups_eq_wavefronts (joins : graph.Joins) :
    graph.parallelGroups = graph.wavefronts :=
  (byDepth_parallelGroups joins).unique (byDepth_wavefronts joins)

/-- Whatever the graph, the work ends and finds the wavefronts. The items that
no loop leads to are in them once, and no others. An item is in the group of a
number exactly if the longest path that ends at it has as many edges. No group
is empty, and each is in ascending order. -/
theorem parallelGroups_spec (grown : graph.Grown) :
    graph.released.step graph = none ∧
      graph.parallelGroups = graph.wavefronts ∧
        graph.parallelGroups.flatten.Nodup ∧
          (∀ id, id ∈ graph.parallelGroups.flatten ↔
            id < graph.items.length ∧ ¬ graph.LoopReaches id) ∧
            (∀ depth id,
              (∃ group, graph.parallelGroups[depth]? = some group ∧ id ∈ group) ↔
                IsGreatest {length | graph.PathTo length id} depth) ∧
              ∀ group ∈ graph.parallelGroups, group ≠ [] ∧ group.Pairwise (· < ·) := by
  have joins := grown.joins
  have byDepth := byDepth_parallelGroups joins
  refine ⟨?_, parallelGroups_eq_wavefronts joins, byDepth.nodup_flatten, ?_,
    byDepth.mem_iff, fun group member => ⟨byDepth.inhabited group member,
      byDepth.ascending group member⟩⟩
  · simp [Release.step, (released_spec joins).2]
  · intro id
    exact byDepth.mem_flatten_iff.trans (exists_depth_iff joins)

end TaskGraph

/-! ## Two edges side by side, a loop and what it leads to -/

namespace Tangle

def item (name : String) : WorkItem :=
  ⟨.unit 0, name, [], none, ⟨0⟩, 0, none⟩

def edge (name : String) (producer consumer : Nat) (condition : Condition) : Edge :=
  ⟨producer, consumer, ⟨⟨name, .cell⟩, .new, none, none, .zero, condition, .data⟩, []⟩

def items : TaskGraph :=
  ⟨[item "first", item "second", item "third", item "round", item "about", item "last"], []⟩

/-- The first item feeds the second one twice, and is fed by the third one later
on. The fourth and the fifth wait for each other, the fourth for itself, and the
last item for them. -/
def graph : TaskGraph :=
  ([edge "x" 0 1 .always, edge "y" 0 1 .always, edge "x" 0 2 .always, edge "z" 1 2 .always,
    edge "x" 2 0 .subsequentIterationsOnly, edge "x" 3 4 .always, edge "y" 4 3 .always,
    edge "z" 3 3 .always, edge "z" 4 5 .always] : List Edge).foldl
      (fun graph edge => (graph.addEdge edge).1) items

private theorem grown_graph : graph.Grown :=
  ⟨_, (TaskGraph.AssembledFrom.ofItems _).addEdges _ (by decide)⟩

end Tangle

theorem parallelGroups_spec_tangle :
    Tangle.graph.Grown ∧ Tangle.graph.parallelGroups = [[0], [1], [2]] ∧
      Tangle.graph.LoopReaches 5 := by
  obtain ⟨_, sameGroups, _, mem_iff, _⟩ := TaskGraph.parallelGroups_spec Tangle.grown_graph
  have groupsEq : Tangle.graph.parallelGroups = [[0], [1], [2]] := by
    rw [sameGroups]
    decide
  refine ⟨Tangle.grown_graph, groupsEq, ?_⟩
  by_contra noLoop
  have listed := (mem_iff 5).mpr ⟨by decide, noLoop⟩
  rw [groupsEq] at listed
  simp at listed

end MeshTasks
