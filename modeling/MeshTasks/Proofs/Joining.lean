import Mathlib.Data.List.Induction
import MeshTasks.Proofs.Outcome
import MeshTasks.Target

/-!
# Joined pieces

Joining keeps pieces in strictly ascending order, so that no two of them come
from one region at one offset. It changes boxes but not the places that pieces
come from, and pieces that agree wherever they come from one place are left as
they are.
-/

namespace MeshTasks

instance : Std.TransOrd Coord :=
  inferInstanceAs (Std.TransCmp (compareOn Coord.val))

instance : Std.TransOrd Vec :=
  inferInstanceAs
    (Std.TransCmp (compareLex (compareOn Vec.x) (compareLex (compareOn Vec.y) (compareOn Vec.z))))

instance : Std.TransCmp Piece.order :=
  inferInstanceAs
    (Std.TransCmp
      (compareLex (compareOn fun piece : Piece => rank piece.region) (compareOn Piece.offset)))

private theorem Vec.eq_of_compare
    {left right : Vec}
    (same : compare left right = .eq) :
    left = right := by
  obtain ⟨onX, onYZ⟩ := Ordering.then_eq_eq.mp same
  obtain ⟨onY, onZ⟩ := Ordering.then_eq_eq.mp onYZ
  exact Vec.ext (Coord.ext (Int.compare_eq_eq.mp onX)) (Coord.ext (Int.compare_eq_eq.mp onY))
    (Coord.ext (Int.compare_eq_eq.mp onZ))

theorem Box.hull_self (box : Box) : box.hull box = box := by
  have sameLow : min box.low box.low = box.low := by
    rw [Vec.min_eq_left_iff]
    omega
  have sameHigh : max box.high box.high = box.high := by
    rw [Vec.max_eq_left_iff]
    omega
  unfold hull
  split
  · rfl
  · rw [sameLow, sameHigh]

namespace Piece

/-- Where a piece comes from: its region and the offset at which that is
seen. -/
def place (piece : Piece) : RegionId × Vec := (piece.region, piece.offset)

private theorem order_congr
    {piece left right : Piece}
    (same : left.place = right.place) :
    piece.order left = piece.order right := by
  obtain ⟨sameRegion, sameOffset⟩ := Prod.mk.inj same
  unfold order
  rw [sameRegion, sameOffset]

theorem order_eq_eq_iff
    {left right : Piece} :
    left.order right = .eq ↔ left.place = right.place := by
  constructor
  · intro same
    obtain ⟨sameRank, sameOffset⟩ := Ordering.then_eq_eq.mp same
    exact Prod.ext (Ranked.rank_injective (Nat.compare_eq_eq.mp sameRank))
      (Vec.eq_of_compare sameOffset)
  · intro same
    have toItself : left.order left = .eq := Std.ReflCmp.compare_self
    rw [← order_congr same, toItself]

theorem place_ne_of_order_eq_lt
    {left right : Piece}
    (less : left.order right = .lt) :
    left.place ≠ right.place := by
  intro same
  rw [order_eq_eq_iff.mpr same] at less
  cases less

private theorem mem_map_place_join
    {piece : Piece} {pieces : List Piece} {source : RegionId × Vec} :
    source ∈ (piece.join pieces).map place ↔
      source = piece.place ∨ source ∈ pieces.map place := by
  induction pieces with
  | nil => simp [join]
  | cons head tail inductionHypothesis =>
      unfold join
      cases compared : piece.order head with
      | lt => simp
      | eq =>
          have same := order_eq_eq_iff.mp compared
          have kept : place { head with box := head.box.hull piece.box } = head.place := rfl
          rw [List.map_cons, List.map_cons, kept, same, List.mem_cons, ← or_assoc, or_self]
      | gt =>
          rw [List.map_cons, List.mem_cons, inductionHypothesis, List.map_cons, List.mem_cons]
          exact or_left_comm

/-- Pieces in strictly ascending order stay so when one is joined. -/
private theorem ascending_join
    {piece : Piece} {pieces : List Piece}
    (ascending : pieces.Pairwise fun left right => left.order right = .lt) :
    (piece.join pieces).Pairwise fun left right => left.order right = .lt := by
  induction pieces with
  | nil => exact List.pairwise_singleton _ _
  | cons head tail inductionHypothesis =>
      obtain ⟨headBelow, tailAscending⟩ := List.pairwise_cons.mp ascending
      unfold join
      cases compared : piece.order head with
      | lt =>
          refine List.pairwise_cons.mpr ⟨fun other member => ?_, ascending⟩
          rcases List.mem_cons.mp member with rfl | inTail
          · exact compared
          · exact Std.TransCmp.lt_trans compared (headBelow other inTail)
      | eq => exact List.pairwise_cons.mpr ⟨headBelow, tailAscending⟩
      | gt =>
          refine List.pairwise_cons.mpr
            ⟨fun other member => ?_, inductionHypothesis tailAscending⟩
          rcases mem_map_place_join.mp (List.mem_map_of_mem member) with same | inTail
          · rw [order_congr same]
            exact Std.OrientedCmp.gt_iff_lt.mp compared
          · obtain ⟨held, heldMember, same⟩ := List.mem_map.mp inTail
            rw [← order_congr same]
            exact headBelow held heldMember

/-- A piece that agrees with those from its place is only put among the
others. -/
private theorem mem_join_of_agrees
    {piece other : Piece} {pieces : List Piece}
    (agrees : ∀ held ∈ pieces, held.place = piece.place → held = piece) :
    other ∈ piece.join pieces ↔ other = piece ∨ other ∈ pieces := by
  induction pieces with
  | nil => simp [join]
  | cons head tail inductionHypothesis =>
      unfold join
      cases compared : piece.order head with
      | lt => simp
      | eq =>
          have same := agrees head List.mem_cons_self (order_eq_eq_iff.mp compared).symm
          subst same
          simp [Box.hull_self]
      | gt =>
          have tailAgrees := inductionHypothesis fun held member =>
            agrees held (List.mem_cons_of_mem head member)
          rw [List.mem_cons, tailAgrees, List.mem_cons]
          exact or_left_comm

end Piece

theorem mem_map_place_joinPieces {pieces : List Piece} {source : RegionId × Vec} :
    source ∈ (joinPieces pieces).map Piece.place ↔ source ∈ pieces.map Piece.place := by
  have started :
      ∀ joined : List Piece,
        source ∈ (pieces.foldl (fun joined piece => piece.join joined) joined).map Piece.place ↔
          source ∈ joined.map Piece.place ∨ source ∈ pieces.map Piece.place := by
    induction pieces with
    | nil => simp
    | cons head tail inductionHypothesis =>
        intro joined
        rw [List.foldl_cons, inductionHypothesis, Piece.mem_map_place_join, List.map_cons,
          List.mem_cons, or_assoc]
        exact or_left_comm
  have nothing : source ∉ ([] : List Piece).map Piece.place := List.not_mem_nil
  unfold joinPieces
  rw [started [], or_iff_right nothing]

theorem joinPieces_concat (pieces : List Piece) (piece : Piece) :
    joinPieces (pieces ++ [piece]) = piece.join (joinPieces pieces) := by
  unfold joinPieces
  rw [List.foldl_append, List.foldl_cons, List.foldl_nil]

theorem ascending_joinPieces (pieces : List Piece) :
    (joinPieces pieces).Pairwise fun left right => left.order right = .lt := by
  induction pieces using List.reverseRecOn with
  | nil => exact List.Pairwise.nil
  | append_singleton pieces piece inductionHypothesis =>
      rw [joinPieces_concat]
      exact Piece.ascending_join inductionHypothesis

/-- Joined pieces all come from different places. -/
theorem nodup_map_place_joinPieces (pieces : List Piece) :
    ((joinPieces pieces).map Piece.place).Nodup :=
  List.pairwise_map.mpr ((ascending_joinPieces pieces).imp Piece.place_ne_of_order_eq_lt)

/-- Pieces that agree wherever they come from one place are joined without
change. -/
theorem mem_joinPieces_of_agree
    {pieces : List Piece} {piece : Piece}
    (agree : ∀ left ∈ pieces, ∀ right ∈ pieces, left.place = right.place → left = right) :
    piece ∈ joinPieces pieces ↔ piece ∈ pieces := by
  have started :
      ∀ joined : List Piece,
        (∀ left ∈ joined ++ pieces, ∀ right ∈ joined ++ pieces,
          left.place = right.place → left = right) →
        (piece ∈ pieces.foldl (fun joined piece => piece.join joined) joined ↔
          piece ∈ joined ∨ piece ∈ pieces) := by
    clear agree
    induction pieces with
    | nil => simp
    | cons head tail inductionHypothesis =>
        intro joined agree
        have headMember : head ∈ joined ++ head :: tail := by simp
        have joinedHead : ∀ other, other ∈ head.join joined ↔ other = head ∨ other ∈ joined :=
          fun other => Piece.mem_join_of_agrees fun held member =>
            agree held (List.mem_append_left _ member) head headMember
        have sameMembers :
            ∀ other, other ∈ head.join joined ++ tail ↔ other ∈ joined ++ head :: tail := by
          intro other
          rw [List.mem_append, joinedHead, List.mem_append, List.mem_cons, or_assoc]
          exact or_left_comm
        rw [List.foldl_cons, inductionHypothesis, joinedHead, List.mem_cons, or_assoc]
        · exact or_left_comm
        · intro left leftMember right rightMember
          exact agree left ((sameMembers left).mp leftMember) right
            ((sameMembers right).mp rightMember)
  unfold joinPieces
  rw [started [] agree]
  exact or_iff_right List.not_mem_nil

end MeshTasks
