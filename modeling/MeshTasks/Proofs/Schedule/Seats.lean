import Mathlib.Data.List.Induction
import MeshTasks.Proofs.Schedule.Order

/-!
# Where collectives are seated

Collectives are seated one after the other, and each move changes the place of
one unit only. Seen through a test that the moved units fail, an order is
therefore the same before and after. When its turn comes, a collective and all
units that depend on it still stand to each other as they did depth first, and
it takes the seat in front of the first of these. Later moves put nothing but
collectives between the two. They may carry that first unit away, though, if it
is a collective itself.
-/

namespace MeshTasks

variable {units : List WorkUnit}

theorem needsUnit_iff {consumer producer : Nat} :
    needsUnit units consumer producer = true ↔ DependsOn units consumer producer := by
  simp only [needsUnit, List.any_eq_true, decide_eq_true_eq]
  constructor
  · rintro ⟨need, needed, rfl⟩
    exact ⟨need.label, mem_needsOf_iff.mp needed⟩
  · rintro ⟨label, real⟩
    exact ⟨⟨producer, label⟩, mem_needsOf_iff.mpr real, rfl⟩

/-- Positions that a test keeps stand in the same order among those that it
keeps. -/
private theorem idxOf_lt_filter_iff
    {keep : Nat → Bool} {order : List Nat} {left right : Nat}
    (leftKept : keep left = true)
    (rightKept : keep right = true) :
    (order.filter keep).idxOf left < (order.filter keep).idxOf right ↔
      order.idxOf left < order.idxOf right := by
  induction order with
  | nil => exact Iff.rfl
  | cons head tail inductionHypothesis =>
      by_cases atRight : head = right
      · rw [atRight, List.filter_cons_of_pos rightKept, List.idxOf_cons_self, List.idxOf_cons_self]
        simp only [Nat.not_lt_zero]
      · by_cases atLeft : head = left
        · rw [atLeft, List.filter_cons_of_pos leftKept, List.idxOf_cons_self, List.idxOf_cons_self,
            List.idxOf_cons_ne _ (atLeft ▸ atRight), List.idxOf_cons_ne _ (atLeft ▸ atRight)]
          exact iff_of_true (Nat.succ_pos _) (Nat.succ_pos _)
        · rw [List.idxOf_cons_ne _ atLeft, List.idxOf_cons_ne _ atRight, Nat.succ_lt_succ_iff]
          by_cases kept : keep head = true
          · rw [List.filter_cons_of_pos kept, List.idxOf_cons_ne _ atLeft,
              List.idxOf_cons_ne _ atRight, Nat.succ_lt_succ_iff]
            exact inductionHypothesis
          · rw [List.filter_cons_of_neg kept]
            exact inductionHypothesis

/-- Lists that look the same through a test keep the order of what it keeps. -/
theorem idxOf_lt_iff_of_filter_eq
    {keep : Nat → Bool} {first second : List Nat} {left right : Nat}
    (same : first.filter keep = second.filter keep)
    (leftKept : keep left = true)
    (rightKept : keep right = true) :
    first.idxOf left < first.idxOf right ↔ second.idxOf left < second.idxOf right := by
  rw [← idxOf_lt_filter_iff leftKept rightKept, same, idxOf_lt_filter_iff leftKept rightKept]

/-! ## One move -/

/-- An order after a position has been moved in front of its first consumer. -/
def moveToUse (units : List WorkUnit) (order : List Nat) (position : Nat) : List Nat :=
  reseat (fun other => needsUnit units other position) position order

/-- What lies between a position and its new place is passed over; none of it
depends on the position, and the first that stays behind it does so, unless
nothing does. -/
theorem moveToUse_eq
    {order : List Nat} {position : Nat}
    (member : position ∈ order) :
    ∃ before passed rest,
      order = before ++ position :: (passed ++ rest) ∧
        moveToUse units order position = before ++ (passed ++ position :: rest) ∧
          position ∉ before ∧ (∀ other ∈ passed, ¬DependsOn units other position) ∧
            ((passed = [] ∧ ∀ other ∈ rest, ¬DependsOn units other position) ∨
              ∃ first after, rest = first :: after ∧ DependsOn units first position) := by
  unfold moveToUse
  induction order with
  | nil => cases member
  | cons head tail inductionHypothesis =>
      unfold reseat
      by_cases atHead : head = position
      · obtain ⟨passed, rest, tailEq, seated, unneeded, stops⟩ :=
          seatBefore_eq (fun other => needsUnit units other position) position tail
        simp only [← Bool.not_eq_true, needsUnit_iff] at unneeded stops
        refine ⟨[], passed, rest, ?_, ?_, List.not_mem_nil, unneeded, stops⟩
        · rw [atHead, tailEq, List.nil_append]
        · rw [if_pos atHead, seated, List.nil_append]
      · obtain ⟨before, passed, rest, tailEq, moved, notBefore, unneeded, stops⟩ :=
          inductionHypothesis ((List.mem_cons.mp member).resolve_left (Ne.symm atHead))
        refine ⟨head :: before, passed, rest, ?_, ?_, ?_, unneeded, stops⟩
        · rw [tailEq, List.cons_append]
        · rw [if_neg atHead, moved, List.cons_append]
        · rw [List.mem_cons, not_or]
          exact ⟨Ne.symm atHead, notBefore⟩

private theorem moveToUse_of_not_mem
    {order : List Nat} {position : Nat}
    (absent : position ∉ order) :
    moveToUse units order position = order := by
  unfold moveToUse
  induction order with
  | nil => rfl
  | cons head tail inductionHypothesis =>
      rw [List.mem_cons, not_or] at absent
      unfold reseat
      rw [if_neg (Ne.symm absent.1), inductionHypothesis absent.2]

theorem filter_moveToUse
    {keep : Nat → Bool} {position : Nat}
    (unkept : keep position = false)
    (order : List Nat) :
    (moveToUse units order position).filter keep = order.filter keep := by
  by_cases member : position ∈ order
  · obtain ⟨before, passed, rest, orderEq, moved, _⟩ := @moveToUse_eq units _ _ member
    rw [moved, orderEq]
    simp [unkept]
  · rw [moveToUse_of_not_mem member]

/-! ## All moves -/

/-- An order after some positions have been moved one after the other. -/
def moveAll (units : List WorkUnit) (moved : List Nat) (order : List Nat) : List Nat :=
  moved.foldl (moveToUse units) order

private theorem seatCollectives_eq (units : List WorkUnit) (order : List Nat) :
    seatCollectives units order = moveAll units (order.filter (isCollective units)) order :=
  rfl

theorem perm_moveAll (moved order : List Nat) : (moveAll units moved order).Perm order := by
  induction moved generalizing order with
  | nil => exact List.Perm.refl order
  | cons position rest inductionHypothesis =>
      exact (inductionHypothesis _).trans (perm_reseat _ position order)

private theorem filter_moveAll
    {keep : Nat → Bool} {moved : List Nat}
    (unkept : ∀ position ∈ moved, keep position = false)
    (order : List Nat) :
    (moveAll units moved order).filter keep = order.filter keep := by
  induction moved generalizing order with
  | nil => rfl
  | cons position rest inductionHypothesis =>
      obtain ⟨headUnkept, restUnkept⟩ := List.forall_mem_cons.mp unkept
      exact (inductionHypothesis restUnkept _).trans (filter_moveToUse headUnkept order)

/-- Positions that are not moved keep their order. -/
theorem idxOf_lt_moveAll_iff
    {moved order : List Nat} {left right : Nat}
    (leftUnmoved : left ∉ moved)
    (rightUnmoved : right ∉ moved) :
    (moveAll units moved order).idxOf left < (moveAll units moved order).idxOf right ↔
      order.idxOf left < order.idxOf right := by
  let others : Nat → Bool := fun other => decide (other ∉ moved)
  have same : (moveAll units moved order).filter others = order.filter others :=
    filter_moveAll (fun position member => decide_eq_false fun apart => apart member) order
  exact idxOf_lt_iff_of_filter_eq same (decide_eq_true leftUnmoved) (decide_eq_true rightUnmoved)

/-- Whatever stands before a position and is not moved itself still does so
after a move. -/
theorem idxOf_lt_moveToUse
    {order : List Nat} {position left right : Nat}
    (unmoved : left ≠ position)
    (before : order.idxOf left < order.idxOf right) :
    (moveToUse units order position).idxOf left <
      (moveToUse units order position).idxOf right := by
  by_cases moves : right = position
  · subst moves
    by_cases member : right ∈ order
    · obtain ⟨front, passed, rest, orderEq, moved, notInFront, _⟩ := @moveToUse_eq units _ _ member
      have leftInFront : left ∈ front := by
        by_contra notLeft
        rw [orderEq, List.idxOf_append_of_notMem notLeft, List.idxOf_append_of_notMem notInFront,
          List.idxOf_cons_self] at before
        omega
      rw [moved, List.idxOf_append_of_mem leftInFront, List.idxOf_append_of_notMem notInFront]
      exact Nat.lt_add_right _ (List.idxOf_lt_length_of_mem leftInFront)
    · rw [moveToUse_of_not_mem member]
      exact before
  · have unmovedRight : right ∉ [position] := by simpa using moves
    have unmovedLeft : left ∉ [position] := by simpa using unmoved
    exact (idxOf_lt_moveAll_iff unmovedLeft unmovedRight).mpr before

/-- Whatever is moved stays behind what it stood behind. -/
theorem idxOf_lt_moveAll
    {moved order : List Nat} {left right : Nat}
    (unmoved : left ∉ moved)
    (before : order.idxOf left < order.idxOf right) :
    (moveAll units moved order).idxOf left < (moveAll units moved order).idxOf right := by
  induction moved generalizing order with
  | nil => exact before
  | cons position rest inductionHypothesis =>
      rw [List.mem_cons, not_or] at unmoved
      exact inductionHypothesis unmoved.2 (idxOf_lt_moveToUse unmoved.1 before)

private theorem idxOf_middle
    {front back : List Nat} {position : Nat}
    (nodup : (front ++ position :: back).Nodup) :
    (front ++ position :: back).idxOf position = front.length := by
  have notFront : position ∉ front :=
    fun inFront => List.disjoint_of_nodup_append nodup inFront List.mem_cons_self
  rw [List.idxOf_append_of_notMem notFront, List.idxOf_cons_self, Nat.add_zero]

theorem idxOf_lt_of_mem_back
    {front back : List Nat} {position other : Nat}
    (nodup : (front ++ position :: back).Nodup)
    (member : other ∈ back) :
    (front ++ position :: back).idxOf position < (front ++ position :: back).idxOf other := by
  rw [idxOf_middle nodup]
  obtain ⟨between, rest, rfl⟩ := List.append_of_mem member
  have regrouped : front ++ position :: (between ++ other :: rest) =
      (front ++ position :: between) ++ other :: rest := by simp
  rw [regrouped] at nodup ⊢
  rw [idxOf_middle nodup, List.length_append, List.length_cons]
  omega

private theorem mem_iff_idxOf_lt_length {front back : List Nat} {position : Nat} :
    position ∈ front ↔ (front ++ back).idxOf position < front.length := by
  by_cases inFront : position ∈ front
  · rw [List.idxOf_append_of_mem inFront]
    exact iff_of_true inFront (List.idxOf_lt_length_of_mem inFront)
  · rw [List.idxOf_append_of_notMem inFront]
    exact iff_of_false inFront (by omega)

/-- A position passes over nothing that stands behind one of its users, and that
user itself stays behind it. -/
theorem not_mem_passed
    {before passed rest : List Nat} {position user other : Nat}
    (nodup : (before ++ position :: (passed ++ rest)).Nodup)
    (unneeded : ∀ other ∈ passed, ¬DependsOn units other position)
    (depends : DependsOn units user position)
    (behind : (before ++ position :: (passed ++ rest)).idxOf position <
      (before ++ position :: (passed ++ rest)).idxOf user)
    (notLater : (before ++ position :: (passed ++ rest)).idxOf user ≤
      (before ++ position :: (passed ++ rest)).idxOf other) :
    other ∉ passed := by
  intro inPassed
  have regrouped :
      before ++ position :: (passed ++ rest) = before ++ position :: passed ++ rest := by
    simp
  have otherPlace : other ∈ before ++ position :: passed := by simp [inPassed]
  have userPlace : user ∈ before ++ position :: passed := by
    rw [@mem_iff_idxOf_lt_length _ rest, ← regrouped] at otherPlace ⊢
    omega
  rw [idxOf_middle nodup] at behind
  rcases List.mem_append.mp userPlace with inFront | atOrPassed
  · have front := (@mem_iff_idxOf_lt_length before (position :: (passed ++ rest)) user).mp inFront
    omega
  · rcases List.mem_cons.mp atOrPassed with rfl | userPassed
    · rw [idxOf_middle nodup] at behind
      omega
    · exact unneeded user userPassed depends

/-! ## The turn of a collective -/

section

variable {order done waiting : List Nat} {collective : Nat}
  (nodup : order.Nodup)
  (turns : order.filter (isCollective units) = done ++ collective :: waiting)

include nodup turns

/-- When the turn of a collective comes, nothing at or behind its place has been
moved. -/
private theorem not_mem_of_turn
    {other : Nat}
    (behind : order.idxOf collective ≤ order.idxOf other) :
    other ∉ done := by
  intro member
  have isKept : ∀ position ∈ done ++ collective :: waiting, isCollective units position = true := by
    rw [← turns]
    exact fun position kept => (List.mem_filter.mp kept).2
  have notDone : collective ∉ done := by
    have keptNodup := nodup.filter (isCollective units)
    rw [turns] at keptNodup
    exact fun inDone => List.disjoint_of_nodup_append keptNodup inDone List.mem_cons_self
  have before : order.idxOf other < order.idxOf collective := by
    rw [← idxOf_lt_filter_iff (isKept other (by simp [member])) (isKept collective (by simp)),
      turns, List.idxOf_append_of_mem member, List.idxOf_append_of_notMem notDone]
    exact Nat.lt_add_right _ (List.idxOf_lt_length_of_mem member)
  omega

/-- At its turn a collective and all behind it stand to each other as they did
depth first. -/
theorem idxOf_lt_at_turn_iff
    {left right : Nat}
    (leftBehind : order.idxOf collective ≤ order.idxOf left)
    (rightBehind : order.idxOf collective ≤ order.idxOf right) :
    (moveAll units done order).idxOf left < (moveAll units done order).idxOf right ↔
      order.idxOf left < order.idxOf right :=
  idxOf_lt_moveAll_iff (not_mem_of_turn nodup turns leftBehind)
    (not_mem_of_turn nodup turns rightBehind)

end

/-- A move puts a position directly in front of the first that depends on it. -/
private theorem idxOf_moveToUse
    {order : List Nat} {position first : Nat}
    (nodup : order.Nodup)
    (present : first ∈ order)
    (depends : DependsOn units first position)
    (behind : order.idxOf position < order.idxOf first)
    (earliest : ∀ user, DependsOn units user position → order.idxOf first ≤ order.idxOf user) :
    (moveToUse units order position).idxOf first =
      (moveToUse units order position).idxOf position + 1 := by
  have member : position ∈ order := List.idxOf_lt_length_iff.mp
    (Nat.lt_trans behind (List.idxOf_lt_length_of_mem present))
  have movedNodup : (moveToUse units order position).Nodup :=
    (perm_reseat _ position order).nodup_iff.mpr nodup
  obtain ⟨before, passed, rest, rfl, moved, _, unneeded, stops⟩ := @moveToUse_eq units _ _ member
  rw [moved] at movedNodup ⊢
  have inRest : first ∈ rest := by
    have notPassed : first ∉ passed := fun inPassed => unneeded first inPassed depends
    have notFront : first ∉ before := by
      intro inFront
      have front :=
        (@mem_iff_idxOf_lt_length before (position :: (passed ++ rest)) first).mp inFront
      rw [idxOf_middle nodup] at behind
      exact Nat.lt_asymm behind front
    have different : first ≠ position := by
      rintro rfl
      exact Nat.lt_irrefl _ behind
    simpa [notFront, notPassed, different] using present
  rcases stops with ⟨_, unused⟩ | ⟨next, after, rfl, nextDepends⟩
  · exact absurd depends (unused first inRest)
  · have isNext : first = next := by
      rcases List.mem_cons.mp inRest with same | inAfter
      · exact same
      · have nextFirst :=
          @idxOf_lt_of_mem_back (before ++ position :: passed) after next first
            (by simpa using nodup) inAfter
        have notLater := earliest next nextDepends
        simp only [List.append_assoc, List.cons_append] at nextFirst
        omega
    subst isNext
    have positionPlace :=
      @idxOf_middle (before ++ passed) (first :: after) position (by simpa using movedNodup)
    have firstPlace :=
      @idxOf_middle (before ++ (passed ++ [position])) after first (by simpa using movedNodup)
    simp only [List.append_assoc, List.cons_append, List.nil_append, List.length_append,
      List.length_cons, List.length_nil] at positionPlace firstPlace
    omega

/-- At its turn a collective is seated directly in front of its first user. -/
private theorem idxOf_moveToUse_at_turn
    {order done waiting : List Nat} {collective first : Nat}
    (nodup : order.Nodup)
    (turns : order.filter (isCollective units) = done ++ collective :: waiting)
    (present : first ∈ order)
    (depends : DependsOn units first collective)
    (behind : order.idxOf collective < order.idxOf first)
    (earliest : ∀ user, DependsOn units user collective → order.idxOf first ≤ order.idxOf user) :
    (moveToUse units (moveAll units done order) collective).idxOf first =
      (moveToUse units (moveAll units done order) collective).idxOf collective + 1 := by
  have reachedPerm : (moveAll units done order).Perm order := perm_moveAll done order
  have asBehind := Nat.le_of_lt behind
  refine idxOf_moveToUse (reachedPerm.nodup_iff.mpr nodup) (reachedPerm.mem_iff.mpr present)
    depends ((idxOf_lt_at_turn_iff nodup turns (Nat.le_refl _) asBehind).mpr behind) ?_
  intro user userDepends
  have notEarlier := earliest user userDepends
  have sameOrder := idxOf_lt_at_turn_iff nodup turns (Nat.le_trans asBehind notEarlier) asBehind
  exact Nat.le_of_not_lt fun earlier => Nat.not_lt.mpr notEarlier (sameOrder.mp earlier)

/-- A collective stands behind just those other units that stood, depth first,
before the first unit that depends on it. -/
theorem idxOf_lt_collective_iff
    {order : List Nat} {collective first other : Nat}
    (nodup : order.Nodup)
    (met : NeedsMet (needsOf units) [] order)
    (synchronizes : isCollective units collective = true)
    (present : first ∈ order)
    (depends : DependsOn units first collective)
    (earliest : ∀ user, DependsOn units user collective → order.idxOf first ≤ order.idxOf user)
    (single : isCollective units other = false) :
    (seatCollectives units order).idxOf other < (seatCollectives units order).idxOf collective ↔
      order.idxOf other < order.idxOf first := by
  have behind : order.idxOf collective < order.idxOf first :=
    met.idxOf_lt_of_dependsOn present depends
  have member : collective ∈ order := List.idxOf_lt_length_iff.mp
    (Nat.lt_trans behind (List.idxOf_lt_length_of_mem present))
  obtain ⟨done, waiting, turns⟩ :=
    List.append_of_mem (List.mem_filter.mpr ⟨member, synchronizes⟩)
  let reached := moveAll units done order
  let moved := moveToUse units reached collective
  have whole : seatCollectives units order = moveAll units waiting moved := by
    rw [seatCollectives_eq, turns, moveAll, List.foldl_append, List.foldl_cons]
    rfl
  have otherUnmoved : other ∉ done ++ collective :: waiting := by
    rw [← turns, List.mem_filter, single]
    exact fun both => Bool.false_ne_true both.2
  rw [List.mem_append, List.mem_cons, not_or, not_or] at otherUnmoved
  obtain ⟨otherNotDone, otherNotCollective, otherNotWaiting⟩ := otherUnmoved
  have collectiveNotWaiting : collective ∉ waiting := by
    have distinct := nodup.filter (isCollective units)
    rw [turns] at distinct
    exact (List.nodup_cons.mp (List.nodup_append.mp distinct).2.1).1
  have firstNotCollective : first ≠ collective := by
    rintro rfl
    exact Nat.lt_irrefl _ behind
  have reachedPerm : reached.Perm order := perm_moveAll done order
  have directlyBehind : moved.idxOf first = moved.idxOf collective + 1 :=
    idxOf_moveToUse_at_turn nodup turns present depends behind earliest
  have apart : moved.idxOf other ≠ moved.idxOf collective := by
    intro same
    have inMoved : collective ∈ moved :=
      ((perm_reseat _ collective reached).trans reachedPerm).mem_iff.mpr member
    exact otherNotCollective ((List.idxOf_inj inMoved).mp same.symm).symm
  calc
    (seatCollectives units order).idxOf other < (seatCollectives units order).idxOf collective
    _ ↔ moved.idxOf other < moved.idxOf collective := by
          rw [whole]
          exact idxOf_lt_moveAll_iff otherNotWaiting collectiveNotWaiting
    _ ↔ moved.idxOf other < moved.idxOf first := by omega
    _ ↔ reached.idxOf other < reached.idxOf first :=
          @idxOf_lt_moveAll_iff units [collective] reached other first
            (by simpa using otherNotCollective) (by simpa using firstNotCollective)
    _ ↔ order.idxOf other < order.idxOf first :=
          idxOf_lt_moveAll_iff otherNotDone (not_mem_of_turn nodup turns (Nat.le_of_lt behind))

/-- Scheduling seats a synchronizing unit behind just those other units that
stood, depth first, before the first unit that depends on it. If that one is no
synchronizing unit, it still is the first to depend on the seated unit, and
nothing but synchronizing units stands between the two. -/
theorem seated_before_first_user
    {order : List Nat} {collective first : Nat}
    (ordered : depthFirstOrder units = .ok order)
    (synchronizes : isCollective units collective = true)
    (depends : DependsOn units first collective)
    (earliest : ∀ user, DependsOn units user collective → order.idxOf first ≤ order.idxOf user) :
    ∃ seated, schedule units = .ok seated ∧
      (∀ other, isCollective units other = false →
        (seated.idxOf other < seated.idxOf collective ↔ order.idxOf other < order.idxOf first)) ∧
      (isCollective units first = false →
        (∀ user, DependsOn units user collective → seated.idxOf first ≤ seated.idxOf user) ∧
          ∀ between, seated.idxOf collective < seated.idxOf between →
            seated.idxOf between < seated.idxOf first → isCollective units between = true) := by
  obtain ⟨permutation, met⟩ := depthFirstOrder_spec ordered
  have nodup : order.Nodup := permutation.nodup_iff.mpr List.nodup_range
  have present : first ∈ order :=
    permutation.mem_iff.mpr (List.mem_range.mpr (lt_length_of_dependsOn depends))
  have place := fun other => @idxOf_lt_collective_iff units order collective first other nodup met
    synchronizes present depends earliest
  have scheduled : schedule units = .ok (seatCollectives units order) := by
    rw [schedule, ordered]
  have notMoved : ∀ other, isCollective units other = false →
      other ∉ order.filter (isCollective units) := by
    intro other single member
    rw [(List.mem_filter.mp member).2] at single
    cases single
  refine ⟨_, scheduled, place, fun single => ⟨fun user userDepends => ?_, ?_⟩⟩
  · -- Whoever depends on the unit stood behind its first user, and moves at most further behind.
    by_cases same : user = first
    · rw [same]
    · have behind : order.idxOf first < order.idxOf user := by
        refine Nat.lt_of_le_of_ne (earliest user userDepends) fun samePlace => ?_
        exact same ((List.idxOf_inj present).mp samePlace).symm
      exact Nat.le_of_lt (idxOf_lt_moveAll (notMoved first single) behind)
  · intro between behindIt beforeFirst
    by_contra other
    have singleBetween := Bool.eq_false_iff.mpr other
    have sameOrder :
        (seatCollectives units order).idxOf between < (seatCollectives units order).idxOf first ↔
          order.idxOf between < order.idxOf first :=
      idxOf_lt_moveAll_iff (notMoved between singleBetween) (notMoved first single)
    exact Nat.lt_asymm behindIt ((place between singleBetween).mpr (sameOrder.mp beforeFirst))

theorem seated_before_first_user_step :
    depthFirstOrder Step.plan = .ok [0, 1, 2, 3] ∧ isCollective Step.plan 0 = true ∧
      DependsOn Step.plan 3 0 ∧ isCollective Step.plan 3 = false ∧
        schedule Step.plan = .ok [1, 0, 2, 3] ∧ isCollective Step.plan 2 = true := by
  have ordered : depthFirstOrder Step.plan = .ok [0, 1, 2, 3] := by decide
  have synchronizes : isCollective Step.plan 0 = true := by decide
  have depends : DependsOn Step.plan 3 0 := needsUnit_iff.mp (by decide)
  have earliest : ∀ user, DependsOn Step.plan user 0 →
      [0, 1, 2, 3].idxOf 3 ≤ [0, 1, 2, 3].idxOf user := by
    intro user userDepends
    have amongAll : ∀ user < 4, needsUnit Step.plan user 0 = true →
        [0, 1, 2, 3].idxOf 3 ≤ [0, 1, 2, 3].idxOf user := by
      decide
    exact amongAll user (lt_length_of_dependsOn userDepends) (needsUnit_iff.mpr userDepends)
  obtain ⟨seated, scheduled, _, between⟩ :=
    seated_before_first_user ordered synchronizes depends earliest
  have computed : schedule Step.plan = .ok [1, 0, 2, 3] := by decide
  rw [computed] at scheduled
  cases scheduled
  exact ⟨ordered, synchronizes, depends, by decide, computed,
    (between (by decide)).2 2 (by decide) (by decide)⟩

/-! ## A collective that waits for another -/

namespace Relay

/-- The sum of what each region contributes. -/
def subtotal : Label := ⟨"subtotal", .reduction⟩

def total : Label := ⟨"total", .reduction⟩

/-- The second collective waits for the first, and the last unit for the
second. -/
def plan : List WorkUnit := [
  (WorkUnit.named "collect" .synchronizing).computing (.of subtotal),
  ((WorkUnit.named "combine" .synchronizing).requiring (.of subtotal)).computing (.of total),
  (WorkUnit.named "advance" .perRegion).computing (.of Step.speed),
  (WorkUnit.named "report" .perRegion).requiring (.of total)]

end Relay

/-- The first collective is seated before the second, which then moves on and
leaves another unit between the two. -/
theorem parted_from_first_user_relay :
    schedule Relay.plan = .ok [0, 2, 1, 3] ∧ isCollective Relay.plan 0 = true ∧
      DependsOn Relay.plan 1 0 ∧
        (∀ user, DependsOn Relay.plan user 0 →
          [0, 2, 1, 3].idxOf 1 ≤ [0, 2, 1, 3].idxOf user) ∧
          isCollective Relay.plan 2 = false ∧ [0, 2, 1, 3].idxOf 0 < [0, 2, 1, 3].idxOf 2 ∧
            [0, 2, 1, 3].idxOf 2 < [0, 2, 1, 3].idxOf 1 := by
  refine ⟨by decide, by decide, needsUnit_iff.mp (by decide), fun user depends => ?_, by decide,
    by decide, by decide⟩
  have amongAll : ∀ user < 4, needsUnit Relay.plan user 0 = true →
      [0, 2, 1, 3].idxOf 1 ≤ [0, 2, 1, 3].idxOf user := by
    decide
  exact amongAll user (lt_length_of_dependsOn depends) (needsUnit_iff.mpr depends)

end MeshTasks
