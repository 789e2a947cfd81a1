import Mathlib.Data.List.Sort
import MeshTasks.Proofs.Mesh.Pieces

/-!
# Least boxes

The hull of two boxes is the least box around the cells of both; a box without
cells adds nothing to it. What is joined at one place is therefore the least box
around all that came from there, in whatever order it came.
-/

namespace MeshTasks

namespace Box

/-- A box that holds some cells, as does every box that holds all of its own. -/
structure IsLeastAround (box : Box) (needed : Cell → Prop) : Prop where
  mem_of_needed : ∀ cell, needed cell → cell ∈ box
  least : ∀ outer : Box, (∀ cell, needed cell → cell ∈ outer) → ∀ cell ∈ box, cell ∈ outer

theorem isLeastAround_self (box : Box) : box.IsLeastAround fun cell => cell ∈ box where
  mem_of_needed _ inBox := inBox
  least _ around := around

theorem IsLeastAround.congr
    {box : Box} {needed other : Cell → Prop}
    (isLeast : box.IsLeastAround needed)
    (same : ∀ cell, needed cell ↔ other cell) :
    box.IsLeastAround other := by
  rw [← funext fun cell => propext (same cell)]
  exact isLeast

/-- There is one least box around some cells, if it holds any. -/
theorem IsLeastAround.unique
    {left right : Box} {needed : Cell → Prop}
    (leftIsLeast : left.IsLeastAround needed)
    (rightIsLeast : right.IsLeastAround needed)
    (holds : left.isEmpty = false) :
    left = right := by
  refine eq_of_mem_iff holds fun cell => ⟨?_, ?_⟩
  · exact leftIsLeast.least right rightIsLeast.mem_of_needed cell
  · exact rightIsLeast.least left leftIsLeast.mem_of_needed cell

/-- What bounds all that a least box is around bounds all of its cells. -/
theorem IsLeastAround.bounded
    {box : Box} {needed : Cell → Prop} {first last : Axis → Int}
    (isLeast : box.IsLeastAround needed)
    (bounds : ∀ cell, needed cell →
      ∀ axis, first axis ≤ cell.get axis ∧ cell.get axis ≤ last axis) :
    ∀ cell ∈ box, ∀ axis, first axis ≤ cell.get axis ∧ cell.get axis ≤ last axis := by
  intro cell inBox
  have someNeeded : ∃ one, needed one := by
    by_contra noneNeeded
    have inOrigin := isLeast.least .origin
      (fun one oneNeeded => absurd ⟨one, oneNeeded⟩ noneNeeded) cell inBox
    exact isEmpty_iff.mp rfl cell inOrigin
  obtain ⟨one, oneNeeded⟩ := someNeeded
  have oneInBox := mem_iff_get.mp (isLeast.mem_of_needed one oneNeeded)
  -- Cut down to the bounds, the box still holds all that is needed.
  obtain ⟨low, lowEq⟩ :=
    Vec.exists_get_eq (fun axis => max (box.low.get axis).val (first axis)) fun axis => by
      have oneHere := oneInBox axis
      have boundsHere := bounds one oneNeeded axis
      have lower := (box.low.get axis).lower
      have upper := (box.high.get axis).upper
      omega
  obtain ⟨high, highEq⟩ :=
    Vec.exists_get_eq (fun axis => min (box.high.get axis).val (last axis + 1)) fun axis => by
      have oneHere := oneInBox axis
      have boundsHere := bounds one oneNeeded axis
      have lower := (box.low.get axis).lower
      have upper := (box.high.get axis).upper
      omega
  have inCut := isLeast.least ⟨low, high⟩ (fun other otherNeeded => mem_iff_get.mpr fun axis => by
    have otherHere := mem_iff_get.mp (isLeast.mem_of_needed other otherNeeded) axis
    have boundsHere := bounds other otherNeeded axis
    rw [lowEq, highEq]
    omega) cell inBox
  intro axis
  have inCutHere := mem_iff_get.mp inCut axis
  rw [lowEq, highEq] at inCutHere
  omega

section

variable {left right outer : Box}

private theorem hull_spec
    (leftHolds : left.isEmpty = false)
    (rightHolds : right.isEmpty = false)
    (axis : Axis) :
    ((left.hull right).low.get axis).val = min (left.low.get axis).val (right.low.get axis).val ∧
      ((left.hull right).high.get axis).val =
        max (left.high.get axis).val (right.high.get axis).val := by
  unfold hull
  rw [leftHolds, rightHolds, if_neg Bool.false_ne_true, if_neg Bool.false_ne_true]
  exact ⟨Vec.get_min _ _ _, Vec.get_max _ _ _⟩

theorem isEmpty_hull
    (leftHolds : left.isEmpty = false)
    (rightHolds : right.isEmpty = false) :
    (left.hull right).isEmpty = false := by
  refine isEmpty_eq_false_iff_get.mpr fun axis => ?_
  have spansHere := isEmpty_eq_false_iff_get.mp leftHolds axis
  have specHere := hull_spec leftHolds rightHolds axis
  omega

theorem contains_self (box : Box) : box.contains box = true :=
  contains_iff_forall_mem.mpr fun _ inBox => inBox

/-- The boxes that contain a hull are those that contain both of what it is the
hull of. -/
theorem contains_hull_iff :
    outer.contains (left.hull right) = true ↔
      outer.contains left = true ∧ outer.contains right = true := by
  -- The corners of a box without cells bound nothing, so the hull leaves such a box out.
  cases leftEmpty : left.isEmpty with
  | true =>
      have isRight : left.hull right = right := if_pos leftEmpty
      have containsLeft : outer.contains left = true :=
        contains_iff_corners.mpr (Or.inl leftEmpty)
      rw [isRight, and_iff_right containsLeft]
  | false =>
      cases rightEmpty : right.isEmpty with
      | true =>
          have isLeft : left.hull right = left := by
            unfold hull
            rw [leftEmpty, rightEmpty]
            rfl
          have containsRight : outer.contains right = true :=
            contains_iff_corners.mpr (Or.inl rightEmpty)
          rw [isLeft, and_iff_left containsRight]
      | false =>
          rw [contains_iff_forall_mem, contains_iff_forall_mem, contains_iff_forall_mem,
            forall_mem_iff_get (isEmpty_hull leftEmpty rightEmpty), forall_mem_iff_get leftEmpty,
            forall_mem_iff_get rightEmpty, ← forall_and]
          refine forall_congr' fun axis => ?_
          have specHere := hull_spec leftEmpty rightEmpty axis
          omega

/-- The hull of two least boxes is the least one around what either is needed
for. -/
theorem IsLeastAround.hull
    {neededLeft neededRight : Cell → Prop}
    (leftIsLeast : left.IsLeastAround neededLeft)
    (rightIsLeast : right.IsLeastAround neededRight) :
    (left.hull right).IsLeastAround fun cell => neededLeft cell ∨ neededRight cell := by
  constructor
  · obtain ⟨containsLeft, containsRight⟩ := contains_hull_iff.mp (left.hull right).contains_self
    rintro cell (ofLeft | ofRight)
    · exact contains_iff_forall_mem.mp containsLeft cell (leftIsLeast.mem_of_needed cell ofLeft)
    · exact contains_iff_forall_mem.mp containsRight cell (rightIsLeast.mem_of_needed cell ofRight)
  · intro outer around
    have containsLeft : outer.contains left = true := contains_iff_forall_mem.mpr <|
      leftIsLeast.least outer fun cell ofLeft => around cell (Or.inl ofLeft)
    have containsRight : outer.contains right = true := contains_iff_forall_mem.mpr <|
      rightIsLeast.least outer fun cell ofRight => around cell (Or.inr ofRight)
    exact contains_iff_forall_mem.mp (contains_hull_iff.mpr ⟨containsLeft, containsRight⟩)

end

end Box

namespace Piece

/-- What joining does to a piece that is there afterwards: it was there and
comes from elsewhere, it is the new one and the first from its place, or it grew
by the new one. -/
private theorem mem_join_cases
    {piece other : Piece} {pieces : List Piece}
    (ascending : pieces.Pairwise fun left right => left.order right = .lt)
    (member : other ∈ piece.join pieces) :
    (other ∈ pieces ∧ other.place ≠ piece.place) ∨
      (other = piece ∧ piece.place ∉ pieces.map place) ∨
        ∃ held ∈ pieces, held.place = piece.place ∧
          other = { held with box := held.box.hull piece.box } := by
  induction pieces with
  | nil => exact Or.inr (Or.inl ⟨List.mem_singleton.mp member, List.not_mem_nil⟩)
  | cons head tail inductionHypothesis =>
      obtain ⟨headBelow, tailAscending⟩ := List.pairwise_cons.mp ascending
      unfold join at member
      cases compared : piece.order head with
      | lt =>
          have below : ∀ held ∈ head :: tail, piece.order held = .lt := by
            intro held heldMember
            rcases List.mem_cons.mp heldMember with rfl | inTail
            · exact compared
            · exact Std.TransCmp.lt_trans compared (headBelow held inTail)
          rw [compared] at member
          rcases List.mem_cons.mp member with rfl | inPieces
          · refine Or.inr (Or.inl ⟨rfl, fun already => ?_⟩)
            obtain ⟨held, heldMember, same⟩ := List.mem_map.mp already
            exact place_ne_of_order_eq_lt (below held heldMember) same.symm
          · exact Or.inl ⟨inPieces, (place_ne_of_order_eq_lt (below other inPieces)).symm⟩
      | eq =>
          have same := order_eq_eq_iff.mp compared
          rw [compared] at member
          rcases List.mem_cons.mp member with grown | inTail
          · exact Or.inr (Or.inr ⟨head, List.mem_cons_self, same.symm, grown⟩)
          · refine Or.inl ⟨List.mem_cons_of_mem _ inTail, ?_⟩
            rw [same]
            exact (place_ne_of_order_eq_lt (headBelow other inTail)).symm
      | gt =>
          have headApart : head.place ≠ piece.place :=
            place_ne_of_order_eq_lt (Std.OrientedCmp.gt_iff_lt.mp compared)
          rw [compared] at member
          rcases List.mem_cons.mp member with rfl | inTail
          · exact Or.inl ⟨List.mem_cons_self, headApart⟩
          · rcases inductionHypothesis tailAscending inTail with
              ⟨kept, elsewhere⟩ | ⟨new, first⟩ | ⟨held, heldMember, same, grown⟩
            · exact Or.inl ⟨List.mem_cons_of_mem _ kept, elsewhere⟩
            · refine Or.inr (Or.inl ⟨new, fun already => ?_⟩)
              rcases List.mem_cons.mp already with atHead | atTail
              · exact headApart atHead.symm
              · exact first atTail
            · exact Or.inr (Or.inr ⟨held, List.mem_cons_of_mem _ heldMember, same, grown⟩)

private theorem holding_concat_iff
    {pieces : List Piece} {piece : Piece} {source : RegionId × Vec} {cell : Cell} :
    Holding (pieces ++ [piece]) source cell ↔
      Holding pieces source cell ∨ piece.place = source ∧ cell ∈ piece.box := by
  unfold Holding
  simp only [List.mem_append, List.mem_singleton, or_and_right, exists_or, exists_eq_left]

end Piece

/-- What is joined at a place is the least box around all that came from
there. -/
theorem isLeastAround_of_mem_joinPieces
    {pieces : List Piece}
    (hold : ∀ piece ∈ pieces, piece.box.isEmpty = false) :
    ∀ joined ∈ joinPieces pieces,
      joined.box.isEmpty = false ∧
        joined.box.IsLeastAround (Piece.Holding pieces joined.place) := by
  induction pieces using List.reverseRecOn with
  | nil => exact fun _ member => absurd member List.not_mem_nil
  | append_singleton pieces piece inductionHypothesis =>
      intro joined member
      rw [joinPieces_concat] at member
      have pieceHolds : piece.box.isEmpty = false := hold piece (by simp)
      have before := inductionHypothesis fun other inPieces => hold other (by simp [inPieces])
      rcases Piece.mem_join_cases (ascending_joinPieces pieces) member with
        ⟨kept, elsewhere⟩ | ⟨rfl, first⟩ | ⟨held, heldMember, same, rfl⟩
      · refine ⟨(before joined kept).1, (before joined kept).2.congr fun cell => ?_⟩
        rw [Piece.holding_concat_iff]
        exact (or_iff_left fun both => elsewhere both.1.symm).symm
      · refine ⟨pieceHolds, joined.box.isLeastAround_self.congr fun cell => ?_⟩
        rw [mem_map_place_joinPieces] at first
        have noneBefore : ¬ Piece.Holding pieces joined.place cell := by
          rintro ⟨other, otherMember, same, _⟩
          exact first (List.mem_map.mpr ⟨other, otherMember, same⟩)
        rw [Piece.holding_concat_iff, or_iff_right noneBefore, eq_self, true_and]
      · obtain ⟨heldHolds, heldIsLeast⟩ := before held heldMember
        have grown := heldIsLeast.hull piece.box.isLeastAround_self
        refine ⟨Box.isEmpty_hull heldHolds pieceHolds, grown.congr fun cell => ?_⟩
        have sameSource : piece.place = Piece.place { held with box := held.box.hull piece.box } :=
          same.symm
        rw [Piece.holding_concat_iff, eq_true sameSource, true_and]
        exact Iff.rfl

section

variable {left right : List Piece}
  (hold : ∀ piece ∈ left, piece.box.isEmpty = false)
  (same : ∀ piece, piece ∈ left ↔ piece ∈ right)

include hold same

private theorem mem_joinPieces_of_mem_iff
    {joined : Piece}
    (member : joined ∈ joinPieces left) :
    joined ∈ joinPieces right := by
  have rightHold : ∀ piece ∈ right, piece.box.isEmpty = false :=
    fun piece inRight => hold piece ((same piece).mpr inRight)
  have there : joined.place ∈ (joinPieces right).map Piece.place := by
    obtain ⟨piece, inLeft, fromPlace⟩ :=
      List.mem_map.mp (mem_map_place_joinPieces.mp (List.mem_map_of_mem member))
    rw [mem_map_place_joinPieces, ← fromPlace]
    exact List.mem_map_of_mem ((same piece).mp inLeft)
  obtain ⟨other, otherMember, samePlace⟩ := List.mem_map.mp there
  obtain ⟨holds, isLeast⟩ := isLeastAround_of_mem_joinPieces hold joined member
  obtain ⟨_, otherIsLeast⟩ := isLeastAround_of_mem_joinPieces rightHold other otherMember
  have sameBox : joined.box = other.box := by
    refine isLeast.unique (otherIsLeast.congr fun cell => ?_) holds
    simp only [Piece.Holding, same, samePlace]
  obtain ⟨sameRegion, sameOffset⟩ := Prod.mk.inj samePlace
  obtain ⟨region, box, offset⟩ := joined
  dsimp only at sameBox sameRegion sameOffset
  rwa [sameBox, ← sameRegion, ← sameOffset]

/-- What is joined depends on which pieces there are, not on their order nor on
how often each of them occurs. -/
theorem joinPieces_eq_of_mem_iff : joinPieces left = joinPieces right := by
  have rightHold : ∀ piece ∈ right, piece.box.isEmpty = false :=
    fun piece inRight => hold piece ((same piece).mpr inRight)
  have antisymm : Std.Antisymm fun first second : Piece => first.order second = .lt := by
    refine ⟨fun first second less more => ?_⟩
    rw [Std.OrientedCmp.gt_iff_lt.mpr more] at less
    cases less
  have irrefl : Std.Irrefl fun first second : Piece => first.order second = .lt :=
    ⟨fun piece less => Piece.place_ne_of_order_eq_lt less rfl⟩
  exact (ascending_joinPieces left).eq_of_mem_iff (ascending_joinPieces right) fun piece =>
    ⟨mem_joinPieces_of_mem_iff hold same,
      mem_joinPieces_of_mem_iff rightHold fun piece => (same piece).symm⟩

end

end MeshTasks
