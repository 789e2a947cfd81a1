import MeshTasks.Proofs.FirstExecution
import MeshTasks.Proofs.Mesh.Reach

/-!
# The cells of a halo

A halo across faces is gathered in three boxes, one for each axis, and what one
region supplies to several of them is joined in one box. Where the regions of a
level share no cell this loses and adds nothing: a region, or an image of one,
that meets two of the three boxes meets the bound region itself, so it is that
region, which every box holds as a whole. The targets on the level of an item
therefore supply just the cells that its halo needs.
-/

namespace MeshTasks

/-! ## What is needed -/

/-- A cell lies in a box that is widened by a margin on each axis. -/
def Box.Widened (box : Box) (margin : Axis → Int) (cell : Cell) : Prop :=
  ∀ axis, (box.low.get axis).val - margin axis ≤ cell.get axis ∧
    cell.get axis < (box.high.get axis).val + margin axis

/-- The cells that a halo around a box needs, in a domain. -/
def Halo.Needs (halo : Halo) (domain box : Box) (cell : Cell) : Prop :=
  match halo.shape with
  | .none => cell ∈ box
  | .faceAdjacent =>
      ∃ across, box.Widened (fun axis => if axis = across then halo.width.val else 0) cell
  | .cornerAdjacent => box.Widened (fun _ => halo.width.val) cell
  | .domainWide => cell ∈ domain

theorem Box.mem_iff_widened
    {box wider : Box} {margin : Axis → Int} {cell : Cell}
    (bounds : ∀ axis, (wider.low.get axis).val = (box.low.get axis).val - margin axis ∧
      (wider.high.get axis).val = (box.high.get axis).val + margin axis) :
    cell ∈ wider ↔ box.Widened margin cell := by
  unfold Widened
  simp only [mem_iff_get, bounds]

theorem Box.widened_zero {box : Box} {margin : Axis → Int} {cell : Cell}
    (narrow : ∀ axis, margin axis = 0) :
    box.Widened margin cell ↔ cell ∈ box := by
  refine (mem_iff_widened fun axis => ?_).symm
  rw [narrow, Int.sub_zero, Int.add_zero]
  exact ⟨rfl, rfl⟩

/-- A halo that does not reach out needs the box itself. -/
theorem Halo.needs_iff_of_bare
    {halo : Halo} {domain box : Box} {cell : Cell}
    (wide : 0 ≤ halo.width.val)
    (bare : halo.isGhosted = false) :
    halo.Needs domain box cell ↔ cell ∈ box := by
  have narrow : halo.shape = .faceAdjacent ∨ halo.shape = .cornerAdjacent →
      halo.width.val = 0 := by
    intro rimmed
    have notAbove : ¬ Coord.zero < halo.width := by
      rcases rimmed with shape | shape
      · simpa [isGhosted, shape] using bare
      · simpa [isGhosted, shape] using bare
    have origin : Coord.zero.val = 0 := rfl
    rw [Coord.lt_iff] at notAbove
    omega
  unfold Needs
  cases shape : halo.shape with
  | none => exact Iff.rfl
  | faceAdjacent =>
      have flat := narrow (Or.inl shape)
      simp only [flat, ite_self, Box.widened_zero (fun _ => rfl)]
      exact ⟨fun ⟨_, inBox⟩ => inBox, fun inBox => ⟨.x, inBox⟩⟩
  | cornerAdjacent =>
      have flat := narrow (Or.inr shape)
      simp only [flat, Box.widened_zero (fun _ => rfl)]
  | domainWide => simp [isGhosted, shape] at bare

namespace Halo

/-- How far a halo reaches out. -/
def reach (halo : Halo) : Int :=
  if halo.isGhosted then halo.width.val else 0

variable {halo : Halo} {domain box : Box} {cell : Cell}

theorem reach_nonneg (wide : 0 ≤ halo.width.val) : 0 ≤ halo.reach := by
  unfold reach
  split
  · exact wide
  · exact Int.le_refl _

variable (bounded : halo.shape ≠ .domainWide) (wide : 0 ≤ halo.width.val)

include bounded wide

theorem widened_of_needs (needs : halo.Needs domain box cell) :
    box.Widened (fun _ => halo.reach) cell := by
  by_cases ghosted : halo.isGhosted = true
  · unfold Needs at needs
    rw [reach, if_pos ghosted]
    cases shape : halo.shape with
    | none => simp [isGhosted, shape] at ghosted
    | faceAdjacent =>
        rw [shape] at needs
        obtain ⟨across, needs⟩ := needs
        intro axis
        have needsHere := needs axis
        dsimp only at needsHere ⊢
        split at needsHere <;> omega
    | cornerAdjacent => simpa only [shape] using needs
    | domainWide => exact absurd shape bounded
  · rw [needs_iff_of_bare wide (Bool.eq_false_iff.mpr ghosted)] at needs
    exact (Box.widened_zero fun _ => if_neg ghosted).mpr needs

theorem needs_of_mem (inBox : cell ∈ box) : halo.Needs domain box cell := by
  have within := Box.mem_iff_get.mp inBox
  unfold Needs
  cases shape : halo.shape with
  | none => exact inBox
  | faceAdjacent =>
      refine ⟨.x, fun axis => ?_⟩
      have here := within axis
      dsimp only
      split <;> omega
  | cornerAdjacent =>
      intro axis
      have here := within axis
      dsimp only
      omega
  | domainWide => exact absurd shape bounded

end Halo

/-! ## How it is gathered -/

/-- Two boxes around a third of which, on every axis, one has the same
bounds. -/
structure Box.Cross (box left right : Box) : Prop where
  left_surrounds : ∀ axis, (left.low.get axis).val ≤ (box.low.get axis).val ∧
    (box.high.get axis).val ≤ (left.high.get axis).val
  right_surrounds : ∀ axis, (right.low.get axis).val ≤ (box.low.get axis).val ∧
    (box.high.get axis).val ≤ (right.high.get axis).val
  flush : ∀ axis,
    ((left.low.get axis).val = (box.low.get axis).val ∧
        (left.high.get axis).val = (box.high.get axis).val) ∨
      ((right.low.get axis).val = (box.low.get axis).val ∧
        (right.high.get axis).val = (box.high.get axis).val)

/-- Boxes that hold just what a halo needs, any two of which are the same or
cross. -/
structure Halo.Gathers (halo : Halo) (domain box : Box) (boxes : List Box) : Prop where
  needs_iff : ∀ cell, halo.Needs domain box cell ↔ ∃ needed ∈ boxes, cell ∈ needed
  cross : ∀ left ∈ boxes, ∀ right ∈ boxes, left = right ∨ box.Cross left right

private theorem Halo.gathers_singleton
    {halo : Halo} {domain box needed : Box}
    (needs_iff : ∀ cell, halo.Needs domain box cell ↔ cell ∈ needed) :
    halo.Gathers domain box [needed] where
  needs_iff := by simpa using needs_iff
  cross := by simp

/-- Boxes that were dilated along two different axes cross. -/
theorem Box.cross_dilateAxis
    {box left right : Box} {leftAxis rightAxis : Axis} {width : Coord}
    (wide : 0 ≤ width.val)
    (different : leftAxis ≠ rightAxis)
    (leftOk : box.dilateAxis leftAxis width = .ok left)
    (rightOk : box.dilateAxis rightAxis width = .ok right) :
    box.Cross left right := by
  constructor
  · intro axis
    have spec := dilateAxis_spec leftOk axis
    split at spec <;> omega
  · intro axis
    have spec := dilateAxis_spec rightOk axis
    split at spec <;> omega
  · intro axis
    by_cases onLeft : axis = leftAxis
    · right
      have spec := dilateAxis_spec rightOk axis
      rw [if_neg (onLeft ▸ different), Int.sub_zero, Int.add_zero] at spec
      exact spec
    · left
      have spec := dilateAxis_spec leftOk axis
      rw [if_neg onLeft, Int.sub_zero, Int.add_zero] at spec
      exact spec

theorem Halo.gathers_boxes
    {halo : Halo} {domain box : Box} {needed : List Box}
    (wide : 0 ≤ halo.width.val)
    (neededOk : halo.boxes domain box = .ok needed) :
    halo.Gathers domain box needed := by
  unfold boxes at neededOk
  cases shape : halo.shape with
  | none =>
      rw [shape] at neededOk
      cases neededOk
      apply gathers_singleton
      intro cell
      simp only [Needs, shape]
  | faceAdjacent =>
      rw [shape] at neededOk
      constructor
      · intro cell
        simp only [Needs, shape]
        constructor
        · rintro ⟨across, widened⟩
          have isAxis : across ∈ Axis.all := by cases across <;> decide
          obtain ⟨wider, member, dilated⟩ := mapM_result_of_mem neededOk isAxis
          exact ⟨wider, member, (Box.mem_iff_widened (Box.dilateAxis_spec dilated)).mpr widened⟩
        · rintro ⟨wider, member, inWider⟩
          obtain ⟨across, _, dilated⟩ := exists_of_mem_mapM neededOk member
          exact ⟨across, (Box.mem_iff_widened (Box.dilateAxis_spec dilated)).mp inWider⟩
      · intro left leftMember right rightMember
        obtain ⟨leftAxis, _, leftOk⟩ := exists_of_mem_mapM neededOk leftMember
        obtain ⟨rightAxis, _, rightOk⟩ := exists_of_mem_mapM neededOk rightMember
        by_cases same : leftAxis = rightAxis
        · rw [same, rightOk] at leftOk
          cases leftOk
          exact Or.inl rfl
        · exact Or.inr (Box.cross_dilateAxis wide same leftOk rightOk)
  | cornerAdjacent =>
      rw [shape] at neededOk
      obtain ⟨dilated, dilatedOk, assembled⟩ := bind_eq_ok_iff.mp neededOk
      cases assembled
      apply gathers_singleton
      intro cell
      simp only [Needs, shape]
      exact (Box.mem_iff_widened (Box.dilate_spec dilatedOk)).symm
  | domainWide =>
      rw [shape] at neededOk
      cases neededOk
      apply gathers_singleton
      intro cell
      simp only [Needs, shape]

/-! ## How it is cut up -/

/-- The offsets at which a level is seen by a halo: none, and the shifts if it
reaches out. -/
def Halo.Sees (halo : Halo) (level : Level) (offset : Vec) : Prop :=
  offset = .zero ∨
    halo.isGhosted = true ∧ ∃ shifts, level.shifts = .ok shifts ∧ offset ∈ shifts

theorem Halo.Sees.shiftsBy
    {halo : Halo} {level : Level} {offset : Vec}
    (sees : halo.Sees level offset) :
    level.ShiftsBy offset :=
  sees.imp_right And.right

theorem Halo.sees_iff_shiftsBy
    {halo : Halo} {level : Level} {offset : Vec}
    (ghosted : halo.isGhosted = true) :
    halo.Sees level offset ↔ level.ShiftsBy offset := by
  unfold Sees Level.ShiftsBy
  rw [eq_true ghosted, true_and]

/-- The pieces of some boxes that are cut up as a halo asks are what regions
supply to a box at an offset at which the halo sees them. -/
theorem mem_flatten_of_cut_iff
    {halo : Halo} {level : Level} {boxes : List Box} {parts : List (List Piece)} {piece : Piece}
    (partsOk :
      (boxes.mapM fun box =>
        if halo.isGhosted then
          piecesWithImages level box
        else
          .ok (piecesWithin level box .zero)) = .ok parts) :
    piece ∈ parts.flatten ↔
      halo.Sees level piece.offset ∧
        ∃ needed ∈ boxes, ∃ held, piece.Supplies level needed held := by
  have ofOne :
      ∀ {needed part},
        (if halo.isGhosted then
          piecesWithImages level needed
        else
          .ok (piecesWithin level needed .zero)) = Except.ok part →
        (piece ∈ part ↔
          halo.Sees level piece.offset ∧ ∃ held, piece.Supplies level needed held) := by
    intro needed part partOk
    by_cases ghosted : halo.isGhosted = true
    · rw [if_pos ghosted] at partOk
      rw [Halo.sees_iff_shiftsBy ghosted]
      exact mem_piecesWithImages_iff partOk
    · rw [if_neg ghosted] at partOk
      cases partOk
      unfold Halo.Sees
      rw [eq_false ghosted, false_and, or_false]
      exact mem_piecesWithin_zero_iff
  rw [List.mem_flatten]
  constructor
  · rintro ⟨part, partMember, inPart⟩
    obtain ⟨needed, neededMember, partOk⟩ := exists_of_mem_mapM partsOk partMember
    obtain ⟨sees, supplied⟩ := (ofOne partOk).mp inPart
    exact ⟨sees, needed, neededMember, supplied⟩
  · rintro ⟨sees, needed, neededMember, supplied⟩
    obtain ⟨part, partMember, partOk⟩ := mapM_result_of_mem partsOk neededMember
    exact ⟨part, partMember, (ofOne partOk).mpr ⟨sees, supplied⟩⟩

/-- Such pieces hold, of each region at each offset, the cells that lie in one
of the boxes. -/
theorem holding_iff_of_mem_iff
    {halo : Halo} {level : Level} {boxes : List Box} {pieces : List Piece}
    {id : RegionId} {shift : Vec} {cell : Cell}
    (mem_iff : ∀ piece, piece ∈ pieces ↔
      halo.Sees level piece.offset ∧ ∃ needed ∈ boxes, ∃ held, piece.Supplies level needed held) :
    Piece.Holding pieces (id, shift) (cell.unshift shift) ↔
      halo.Sees level shift ∧ ∃ held ∈ level.regions, held.id = id ∧
        cell.unshift shift ∈ held.box ∧ ∃ needed ∈ boxes, cell ∈ needed := by
  constructor
  · rintro ⟨piece, pieceMember, fromPlace, inPiece⟩
    obtain ⟨rfl, rfl⟩ := Prod.mk.inj fromPlace
    obtain ⟨sees, needed, neededMember, held, inLevel, fromHeld, isPart⟩ :=
      (mem_iff piece).mp pieceMember
    obtain ⟨inNeeded, inHeld⟩ := isPart.mem_iff.mp inPiece
    exact ⟨sees, held, inLevel, fromHeld.symm, inHeld, needed, neededMember, inNeeded⟩
  · rintro ⟨sees, held, inLevel, rfl, inHeld, needed, neededMember, inNeeded⟩
    obtain ⟨part, isPart⟩ := Box.exists_isPart inNeeded inHeld
    refine ⟨⟨held.id, part, shift⟩, ?_, rfl, isPart.mem_iff.mpr ⟨inNeeded, inHeld⟩⟩
    exact (mem_iff _).mpr ⟨sees, needed, neededMember, held, inLevel, rfl, isPart⟩

/-- Pieces that some boxes are cut up into, which hold what a halo around a
region needs. -/
structure Halo.Cuts (halo : Halo) (level : Level) (region : Region) (boxes : List Box)
    (pieces : List Piece) : Prop where
  gathers : halo.Gathers level.domain region.box boxes
  mem_iff : ∀ piece, piece ∈ pieces ↔
    halo.Sees level piece.offset ∧ ∃ needed ∈ boxes, ∃ held, piece.Supplies level needed held

section

variable {grid : Grid} {halo : Halo} {level : Level} {region : Region} {pieces : List Piece}

private theorem exists_cuts_of_haloPieces
    (levelAt : grid.level? region.level = some level)
    (wide : 0 ≤ halo.width.val)
    (piecesOk : haloPieces grid halo region level 0 = .ok pieces) :
    ∃ boxes, halo.Cuts level region boxes pieces := by
  obtain ⟨boxes, parts, boxesOk, partsOk, rfl⟩ := haloPieces_zero_eq_ok_iff.mp piecesOk
  rw [levelAt] at boxesOk
  exact ⟨boxes, Halo.gathers_boxes wide boxesOk, fun _ => mem_flatten_of_cut_iff partsOk⟩

variable
  (disjoint : level.regions.Pairwise fun left right => left.box.overlaps right.box = false)
  (member : region ∈ level.regions)

include disjoint member

/-- Without a rim the bound region holds all that is needed. -/
theorem cuts_of_bare
    (wide : 0 ≤ halo.width.val)
    (bare : halo.isGhosted = false) :
    halo.Cuts level region [region.box] [⟨region.id, region.box, .zero⟩] := by
  have whole : region.box.IsPart region.box .zero region.box :=
    Box.isPart_self (fun _ => ⟨Int.le_refl _, Int.le_refl _⟩)
      (level.coherent.not_empty region member)
  refine ⟨Halo.gathers_singleton fun cell => Halo.needs_iff_of_bare wide bare, fun piece => ?_⟩
  rw [List.mem_singleton]
  constructor
  · rintro rfl
    exact ⟨Or.inl rfl, region.box, List.mem_cons_self, region, member, rfl, whole⟩
  · rintro ⟨sees, needed, neededMember, held, inLevel, regionEq, isPart⟩
    obtain rfl := List.mem_singleton.mp neededMember
    obtain ⟨unshifted, rfl⟩ :=
      Level.eq_of_image_shares disjoint member inLevel sees.shiftsBy isPart.shares
    obtain ⟨id, box, offset⟩ := piece
    dsimp only at unshifted regionEq isPart
    subst unshifted
    rw [regionEq, isPart.unique whole]

/-- A region that supplies two boxes that cross is the bound one, and supplies
itself to both. -/
private theorem eq_part_of_cross
    {left right leftPart rightPart : Box} {offset : Vec} {held : Region}
    (crosses : region.box.Cross left right)
    (inLevel : held ∈ level.regions)
    (shifts : level.ShiftsBy offset)
    (ofLeft : leftPart.IsPart left offset held.box)
    (ofRight : rightPart.IsPart right offset held.box) :
    leftPart = rightPart := by
  have shares : ∀ axis,
      (region.box.low.get axis).val - (offset.get axis).val < (held.box.high.get axis).val ∧
        (held.box.low.get axis).val <
          (region.box.high.get axis).val - (offset.get axis).val := by
    intro axis
    -- The box that is flush with the bound region on this axis shares no more than that does.
    rcases crosses.flush axis with ⟨sameLow, sameHigh⟩ | ⟨sameLow, sameHigh⟩
    · have sharesHere := ofLeft.shares axis
      omega
    · have sharesHere := ofRight.shares axis
      omega
  obtain ⟨unshifted, rfl⟩ :=
    Level.eq_of_image_shares disjoint member inLevel shifts shares
  rw [unshifted] at ofLeft ofRight
  have holds := level.coherent.not_empty held inLevel
  rw [ofLeft.unique (Box.isPart_self crosses.left_surrounds holds),
    ofRight.unique (Box.isPart_self crosses.right_surrounds holds)]

/-- What comes from one place is one piece, whichever boxes it was cut from. -/
theorem Halo.Cuts.agree
    {boxes : List Box}
    (cuts : halo.Cuts level region boxes pieces)
    (distinct : ∀ first ∈ level.regions, ∀ second ∈ level.regions, first.id = second.id →
      first = second) :
    ∀ left ∈ pieces, ∀ right ∈ pieces, left.place = right.place → left = right := by
  intro left leftMember right rightMember same
  obtain ⟨leftId, leftBox, offset⟩ := left
  obtain ⟨rightId, rightBox, rightOffset⟩ := right
  obtain ⟨rfl, rfl⟩ := Prod.mk.inj same
  obtain ⟨sees, leftNeeded, inLeft, held, inLevel, leftEq, ofLeft⟩ :=
    (cuts.mem_iff _).mp leftMember
  obtain ⟨_, rightNeeded, inRight, other, otherIn, rightEq, ofRight⟩ :=
    (cuts.mem_iff _).mp rightMember
  obtain rfl : held = other := distinct held inLevel other otherIn (leftEq.symm.trans rightEq)
  have sameBox : leftBox = rightBox := by
    rcases cuts.gathers.cross leftNeeded inLeft rightNeeded inRight with rfl | crosses
    · exact ofLeft.unique ofRight
    · exact eq_part_of_cross disjoint member crosses inLevel sees.shiftsBy ofLeft ofRight
  rw [sameBox]

omit disjoint member

/-- The pieces of a region at an offset hold those of its cells that are needed
there. -/
theorem Halo.Cuts.exists_piece_iff
    {boxes : List Box} {held : Region} {shift : Vec} {cell : Cell}
    (cuts : halo.Cuts level region boxes pieces)
    (distinct : ∀ first ∈ level.regions, ∀ second ∈ level.regions, first.id = second.id →
      first = second)
    (inLevel : held ∈ level.regions)
    (sees : halo.Sees level shift) :
    (∃ piece ∈ pieces, piece.region = held.id ∧ piece.offset = shift ∧
        cell.unshift shift ∈ piece.box) ↔
      cell.unshift shift ∈ held.box ∧ halo.Needs level.domain region.box cell := by
  have holding :
      (∃ piece ∈ pieces, piece.region = held.id ∧ piece.offset = shift ∧
          cell.unshift shift ∈ piece.box) ↔
        Piece.Holding pieces (held.id, shift) (cell.unshift shift) := by
    simp only [Piece.Holding, Piece.place, Prod.mk.injEq, and_assoc]
  rw [holding, holding_iff_of_mem_iff cuts.mem_iff, cuts.gathers.needs_iff]
  constructor
  · rintro ⟨_, other, otherIn, same, inOther, neededHere⟩
    rw [← distinct other otherIn held inLevel same]
    exact ⟨inOther, neededHere⟩
  · rintro ⟨inHeld, neededHere⟩
    exact ⟨sees, held, inLevel, rfl, inHeld, neededHere⟩

end

/-! ## Targets -/

/-- Unless arithmetic fails, an access to a bound region cuts up what its halo
needs. -/
private theorem exists_cuts_of_piecesFor
    {grid : Grid} {unit : WorkUnit} {access : Access} {bound : RegionId} {region : Region}
    {level : Level}
    (regionAt : grid.region? bound = some region)
    (levelAt : grid.level? region.level = some level)
    (disjoint : level.regions.Pairwise fun left right => left.box.overlaps right.box = false)
    (member : region ∈ level.regions)
    (toBound : access.domain = .regionBound)
    (wide : 0 ≤ access.halo.width.val)
    (fits : ∀ fault, piecesFor grid unit access bound ≠ .error (.arithmetic fault)) :
    ∃ boxes pieces, piecesFor grid unit access bound = .ok pieces ∧
      access.halo.Cuts level region boxes pieces := by
  rw [piecesFor_of_bound regionAt levelAt toBound] at fits ⊢
  by_cases ghosted : access.halo.isGhosted = true
  · rw [if_pos ghosted] at fits ⊢
    cases gathered : haloPieces grid access.halo region level 0 with
    | error fault =>
        rw [gathered] at fits
        exact absurd rfl (fits fault)
    | ok pieces =>
        obtain ⟨boxes, cuts⟩ := exists_cuts_of_haloPieces levelAt wide gathered
        exact ⟨boxes, pieces, rfl, cuts⟩
  · rw [if_neg ghosted]
    exact ⟨_, _, rfl, cuts_of_bare disjoint member wide (Bool.eq_false_iff.mpr ghosted)⟩

/-- The targets of an access that admits the one region of an item. -/
theorem targets_of_admitted
    {grid : Grid} {item : WorkItem} {unit : WorkUnit} {access : Access} {bound : RegionId}
    (onOne : item.regions = [bound])
    (notReduction : access.label.isReduction = false)
    (admitted : access.admits bound = true) :
    targets grid item unit access =
      (piecesFor grid unit access bound >>= fun pieces =>
        pure ((joinPieces pieces).map .part)) := by
  have placed : item.regions ≠ [] := by simp [onOne]
  have kept : item.regions.filter access.admits = [bound] := by simp [onOne, admitted]
  rw [targets_of_placed notReduction placed, kept, List.mapM_cons, List.mapM_nil]
  cases piecesFor grid unit access bound with
  | error error => rfl
  | ok pieces =>
      show Except.ok ((joinPieces [pieces].flatten).map Target.part) = _
      rw [List.flatten_singleton]
      rfl

/-- The targets of an access to the one region of an item. -/
private theorem targets_of_single
    {grid : Grid} {item : WorkItem} {unit : WorkUnit} {access : Access} {bound : RegionId}
    (onOne : item.regions = [bound])
    (notReduction : access.label.isReduction = false)
    (unfiltered : access.regions = none) :
    targets grid item unit access =
      (piecesFor grid unit access bound >>= fun pieces =>
        pure ((joinPieces pieces).map .part)) := by
  refine targets_of_admitted onOne notReduction ?_
  rw [Access.admits, unfiltered]

/-- What is held by a target is held by the piece it was made of. -/
theorem exists_target_iff
    {pieces : List Piece} {id : RegionId} {shift : Vec} {holds : Box → Prop} :
    (∃ target ∈ pieces.map Target.part, target.region? = some id ∧ target.offset = shift ∧
        ∃ box, target.box? = some box ∧ holds box) ↔
      ∃ piece ∈ pieces, piece.region = id ∧ piece.offset = shift ∧ holds piece.box := by
  simp [Target.region?, Target.offset, Target.box?]

/-- Targets that are made of joined pieces differ in their region or in their
offset. -/
theorem nodup_targets (pieces : List Piece) :
    (((joinPieces pieces).map Target.part).map fun target =>
      (target.region?, target.offset)).Nodup := by
  have places :
      (((joinPieces pieces).map Target.part).map fun target =>
          (target.region?, target.offset)) =
        ((joinPieces pieces).map Piece.place).map (Prod.map some id) := by
    rw [List.map_map, List.map_map]
    rfl
  rw [places]
  refine (nodup_map_place_joinPieces pieces).map fun left right same => ?_
  obtain ⟨sameRegion, sameOffset⟩ := Prod.mk.inj same
  exact Prod.ext (Option.some.inj sameRegion) sameOffset

/-- The targets of an access to the one bound region, on a level whose regions
share no cell. For each region and each offset at which the halo sees it, they
hold just those of its cells that the halo needs there, and no region is a
target twice at one offset. -/
theorem targets_exact
    {grid : Grid} {item : WorkItem} {unit : WorkUnit} {access : Access} {bound : RegionId}
    {region : Region} {level : Level}
    (indexed : grid.Indexed)
    (onOne : item.regions = [bound])
    (regionAt : grid.region? bound = some region)
    (levelAt : grid.level? region.level = some level)
    (disjoint : level.regions.Pairwise fun left right => left.box.overlaps right.box = false)
    (toBound : access.domain = .regionBound)
    (notReduction : access.label.isReduction = false)
    (unfiltered : access.regions = none)
    (wide : 0 ≤ access.halo.width.val)
    (fits : ∀ fault, targets grid item unit access ≠ .error (.arithmetic fault)) :
    ∃ found, targets grid item unit access = .ok found ∧
      (∀ held ∈ level.regions, ∀ shift, access.halo.Sees level shift → ∀ cell : Cell,
        (∃ target ∈ found, target.region? = some held.id ∧ target.offset = shift ∧
            ∃ box, target.box? = some box ∧ cell.unshift shift ∈ box) ↔
          cell.unshift shift ∈ held.box ∧
            access.halo.Needs level.domain region.box cell) ∧
      (found.map fun target => (target.region?, target.offset)).Nodup := by
  obtain ⟨_, levelEq, member⟩ := Grid.exists_level_of_region? indexed regionAt
  rw [levelAt] at levelEq
  cases levelEq
  have targetsEq := @targets_of_single grid item unit access bound onOne notReduction unfiltered
  have fitting : ∀ fault, piecesFor grid unit access bound ≠ .error (.arithmetic fault) := by
    intro fault failed
    rw [failed] at targetsEq
    exact fits fault targetsEq
  obtain ⟨boxes, pieces, piecesOk, cuts⟩ :=
    exists_cuts_of_piecesFor regionAt levelAt disjoint member toBound wide fitting
  have distinct : ∀ first ∈ level.regions, ∀ second ∈ level.regions, first.id = second.id →
      first = second :=
    fun _ firstIn _ secondIn => Grid.eq_of_id_eq levelAt firstIn secondIn
  rw [piecesOk] at targetsEq
  refine ⟨_, targetsEq, fun held inLevel shift sees cell => ?_, nodup_targets pieces⟩
  rw [exists_target_iff, ← cuts.exists_piece_iff distinct inLevel sees]
  simp only [mem_joinPieces_of_agree (cuts.agree disjoint member distinct)]

/-! ## A ring of two regions -/

namespace Row

/-- The row, closed to a ring along `x`. -/
def ring : Level := { level with periodic := ⟨true, false, false⟩ }

def ringGrid : Grid := ⟨[ring], by decide⟩

/-- The left cube, which has the right one at both its faces. -/
def onLeft : WorkItem := ⟨.unit 0, "relax", [⟨0⟩], none, ⟨0⟩, 0, none⟩

/-- An access to the density that reaches one cell across each face. -/
def acrossFaces : Access := { Access.of density with halo := ⟨.faceAdjacent, .one⟩ }

/-- The offset at which the end of the ring comes before its start. -/
def before : Vec := ⟨⟨-8, by decide, by decide⟩, .zero, .zero⟩

/-- The left cube itself, and the cells of the right cube that adjoin it on
either side. -/
def aroundLeft : List Target := [
  .part ⟨⟨0⟩, ⟨.zero, .splat four⟩, .zero⟩,
  .part ⟨⟨1⟩, ⟨⟨⟨7, by decide, by decide⟩, .zero, .zero⟩, ⟨eight, four, four⟩⟩, before⟩,
  .part ⟨⟨1⟩, ⟨⟨four, .zero, .zero⟩, ⟨⟨5, by decide, by decide⟩, four, four⟩⟩, .zero⟩]

end Row

theorem targets_exact_ring :
    targets Row.ringGrid Row.onLeft (Row.unit "relax" [⟨0⟩]) Row.acrossFaces =
        .ok Row.aroundLeft ∧
      ∃ target ∈ Row.aroundLeft, target.region? = some ⟨1⟩ ∧ target.offset = Row.before ∧
        ∃ box, target.box? = some box ∧ (⟨7, 0, 0⟩ : Cell) ∈ box := by
  have computed :
      targets Row.ringGrid Row.onLeft (Row.unit "relax" [⟨0⟩]) Row.acrossFaces =
        .ok Row.aroundLeft := rfl
  have indexed : Row.ringGrid.Indexed := Grid.indexed_iff.mpr rfl
  have levelAt : Row.ringGrid.level? 0 = some Row.ring := rfl
  have disjoint : Row.ring.regions.Pairwise fun left right =>
      left.box.overlaps right.box = false := by
    decide
  have fits : ∀ fault,
      targets Row.ringGrid Row.onLeft (Row.unit "relax" [⟨0⟩]) Row.acrossFaces ≠
        .error (.arithmetic fault) := by
    intro fault failed
    rw [computed] at failed
    cases failed
  obtain ⟨found, foundOk, supplies, _⟩ :=
    targets_exact indexed rfl rfl levelAt disjoint rfl rfl rfl (by decide) fits
  rw [computed] at foundOk
  cases foundOk
  have inRing : Row.acrossFaces.halo.Sees Row.ring Row.before :=
    Or.inr ⟨rfl, _, rfl, by decide⟩
  have needed : Row.acrossFaces.halo.Needs Row.ring.domain ⟨.zero, .splat Row.four⟩ ⟨-1, 0, 0⟩ :=
    ⟨.x, by intro axis; cases axis <;> decide⟩
  refine ⟨computed, ?_⟩
  exact (supplies _ (List.mem_cons_of_mem _ List.mem_cons_self) _ inRing ⟨-1, 0, 0⟩).mpr
    ⟨by decide, needed⟩

end MeshTasks
