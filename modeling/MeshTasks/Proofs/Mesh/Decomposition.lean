import MeshTasks.Proofs.Mesh.Carrying
import MeshTasks.Proofs.Mesh.Halos
import MeshTasks.Proofs.Mesh.Hulls

/-!
# The targets of an access

What an item asks of a region, at an offset at which its access sees the region,
are the cells of that region that lie in something that the halo of one of its
own regions needs, on whichever level. There is a target for the region at the
offset just if there is such a cell, and its box is the least one around all of
them. This goes for any number of bound regions, on any levels.
-/

namespace MeshTasks

/-! ## What is needed on another level -/

/-- A cell of a level that lies in a cell that a halo around a region needs, or
in which such a cell lies. -/
def Halo.NeedsOn (halo : Halo) (grid : Grid) (region : Region) (target : Nat) (cell : Cell) :
    Prop :=
  ∃ own needed, grid.level? region.level = some own ∧ halo.Needs own.domain region.box needed ∧
    grid.Nested region.level needed target cell

private theorem Halo.needsOn_iff
    {halo : Halo} {grid : Grid} {region : Region} {own : Level} {target : Nat} {cell : Cell}
    (ownAt : grid.level? region.level = some own) :
    halo.NeedsOn grid region target cell ↔
      ∃ needed, halo.Needs own.domain region.box needed ∧
        grid.Nested region.level needed target cell := by
  unfold NeedsOn
  rw [ownAt]
  simp only [Option.some.injEq, exists_and_left, exists_eq_left']

/-- Pieces that hold just what a halo around a region needs from a level, and of
which each holds some of it. -/
structure Halo.SuppliedBy (halo : Halo) (grid : Grid) (region : Region) (target : Level)
    (pieces : List Piece) : Prop where
  not_empty : ∀ piece ∈ pieces, piece.box.isEmpty = false
  holding_iff : ∀ id shift cell, Piece.Holding pieces (id, shift) cell ↔
    halo.Sees target shift ∧ ∃ held ∈ target.regions, held.id = id ∧ cell ∈ held.box ∧
      halo.NeedsOn grid region target.index (cell.shift shift)

theorem Cell.unshift_shift (cell : Cell) (offset : Vec) :
    (cell.shift offset).unshift offset = cell :=
  Cell.ext (Int.add_sub_cancel _ _) (Int.add_sub_cancel _ _) (Int.add_sub_cancel _ _)

section

variable {grid : Grid} {halo : Halo} {region : Region} {own target : Level} {pieces : List Piece}

private theorem Halo.suppliedBy_of_mem_iff
    {boxes : List Box}
    (mem_iff : ∀ piece, piece ∈ pieces ↔
      halo.Sees target piece.offset ∧ ∃ needed ∈ boxes, ∃ held, piece.Supplies target needed held)
    (needs_iff : ∀ cell,
      halo.NeedsOn grid region target.index cell ↔ ∃ needed ∈ boxes, cell ∈ needed) :
    halo.SuppliedBy grid region target pieces where
  not_empty piece member := by
    obtain ⟨_, _, _, _, supplies⟩ := (mem_iff piece).mp member
    exact supplies.is_part.not_empty
  holding_iff id shift cell := by
    have holding :=
      @holding_iff_of_mem_iff halo target boxes pieces id shift (cell.shift shift) mem_iff
    rw [Cell.unshift_shift] at holding
    rw [holding, needs_iff]

/-- The boxes of a halo surround the box that the halo is around. -/
private theorem surrounds_of_mem_boxes
    {domain box needed : Box} {boxes : List Box}
    (wide : 0 ≤ halo.width.val)
    (inside : ∀ axis, (domain.low.get axis).val ≤ (box.low.get axis).val ∧
      (box.high.get axis).val ≤ (domain.high.get axis).val)
    (boxesOk : halo.boxes domain box = .ok boxes)
    (member : needed ∈ boxes)
    (axis : Axis) :
    (needed.low.get axis).val ≤ (box.low.get axis).val ∧
      (box.high.get axis).val ≤ (needed.high.get axis).val := by
  rcases bounds_of_mem_boxes wide boxesOk member with ⟨_, rfl⟩ | bounds
  · exact inside axis
  · exact ⟨(bounds axis).1.2, (bounds axis).2.1⟩

variable
  (indexed : grid.Indexed)
  (ownAt : grid.level? region.level = some own)
  (inOwn : region ∈ own.regions)
  (wide : 0 ≤ halo.width.val)

include indexed ownAt inOwn wide

/-- The boxes of a halo, carried to a level, hold what is needed there. -/
private theorem needsOn_iff_of_carried
    {steps : Int} {boxes : List Box} {carried : List (Option Box)} {cell : Cell}
    (targetAt : grid.levelAt? region.level steps = some target)
    (boxesOk : halo.boxes own.domain region.box = .ok boxes)
    (carriedOk :
      (boxes.mapM fun box => carryBox grid box region.level target.index steps) = .ok carried) :
    halo.NeedsOn grid region target.index cell ↔
      ∃ reached ∈ carried.filterMap id, cell ∈ reached := by
  have reaches :
      ∀ {box outcome}, box ∈ boxes →
        carryBox grid box region.level target.index steps = .ok outcome →
        ∃ reached, outcome = some reached ∧
          ∀ cell, cell ∈ reached ↔
            ∃ needed ∈ box, grid.Nested region.level needed target.index cell := by
    intro box outcome member outcomeOk
    have holds : box.isEmpty = false := by
      refine Box.isEmpty_eq_false_iff_get.mpr fun axis => ?_
      have spans := Box.isEmpty_eq_false_iff_get.mp (own.coherent.not_empty region inOwn) axis
      have surrounds :=
        surrounds_of_mem_boxes wide (Level.within_domain inOwn) boxesOk member axis
      omega
    exact exists_box_of_carryBox indexed ownAt targetAt holds outcomeOk
  rw [Halo.needsOn_iff ownAt]
  simp only [(Halo.gathers_boxes wide boxesOk).needs_iff, List.mem_filterMap, id_eq]
  constructor
  · rintro ⟨needed, ⟨box, boxMember, inBox⟩, nested⟩
    obtain ⟨outcome, outcomeMember, outcomeOk⟩ := mapM_result_of_mem carriedOk boxMember
    obtain ⟨reached, rfl, mem_reached⟩ := reaches boxMember outcomeOk
    exact ⟨reached, ⟨_, outcomeMember, rfl⟩, (mem_reached cell).mpr ⟨needed, inBox, nested⟩⟩
  · rintro ⟨reached, ⟨_, reachedMember, rfl⟩, inReached⟩
    obtain ⟨box, boxMember, outcomeOk⟩ := exists_of_mem_mapM carriedOk reachedMember
    obtain ⟨_, same, mem_reached⟩ := reaches boxMember outcomeOk
    cases same
    obtain ⟨needed, inBox, nested⟩ := (mem_reached cell).mp inReached
    exact ⟨needed, ⟨box, boxMember, inBox⟩, nested⟩

theorem suppliedBy_haloPieces
    {steps : Int}
    (targetAt : grid.levelAt? region.level steps = some target)
    (piecesOk : haloPieces grid halo region target steps = .ok pieces) :
    halo.SuppliedBy grid region target pieces := by
  obtain ⟨boxes, carried, parts, boxesOk, carriedOk, partsOk, rfl⟩ :=
    haloPieces_eq_ok_iff.mp piecesOk
  rw [ownAt] at boxesOk
  exact Halo.suppliedBy_of_mem_iff (fun _ => mem_flatten_of_cut_iff partsOk)
    fun _ => needsOn_iff_of_carried indexed ownAt inOwn wide targetAt boxesOk carriedOk

/-- Without a rim the bound region supplies itself. -/
private theorem suppliedBy_of_bare
    (disjoint : own.regions.Pairwise fun left right => left.box.overlaps right.box = false)
    (bare : halo.isGhosted = false) :
    halo.SuppliedBy grid region own [⟨region.id, region.box, .zero⟩] := by
  have cuts := cuts_of_bare disjoint inOwn wide bare
  refine Halo.suppliedBy_of_mem_iff cuts.mem_iff fun cell => ?_
  rw [Halo.needsOn_iff ownAt, indexed region.level own ownAt]
  simp only [Grid.nested_self_iff, exists_eq_right]
  exact cuts.gathers.needs_iff cell

end

/-! ## What an item asks for -/

/-- The item is bound to the region, the access admits it, and it leads from
there to the level. -/
structure Access.Leads (access : Access) (grid : Grid) (item : WorkItem) (region : Region)
    (level : Level) : Prop where
  bound : region.id ∈ item.regions
  admitted : access.admits region.id = true
  on_grid : grid.region? region.id = some region
  level_eq : grid.levelAt? region.level access.domain.levelOffset = some level

/-- A cell of a region that an item asks for at an offset. -/
def Access.AsksFor (access : Access) (grid : Grid) (item : WorkItem) (id : RegionId) (shift : Vec)
    (cell : Cell) : Prop :=
  ∃ region level, access.Leads grid item region level ∧ access.halo.Sees level shift ∧
    ∃ held ∈ level.regions, held.id = id ∧ cell ∈ held.box ∧
      access.halo.NeedsOn grid region level.index (cell.shift shift)

/-- Pieces in strictly ascending order, each with cells of its region only.
There is one for each region and offset with a cell that is asked for, and it is
the least box around these cells. -/
structure Access.Decomposes (access : Access) (grid : Grid) (item : WorkItem)
    (pieces : List Piece) : Prop where
  ascending : pieces.Pairwise fun left right => left.order right = .lt
  not_empty : ∀ piece ∈ pieces, piece.box.isEmpty = false
  located : ∀ piece ∈ pieces, ∃ region level, access.Leads grid item region level ∧
    access.halo.Sees level piece.offset ∧
      ∃ held ∈ level.regions, held.id = piece.region ∧ ∀ cell ∈ piece.box, cell ∈ held.box
  exists_iff : ∀ id shift, (∃ piece ∈ pieces, piece.region = id ∧ piece.offset = shift) ↔
    ∃ cell, access.AsksFor grid item id shift cell
  least : ∀ piece ∈ pieces,
    piece.box.IsLeastAround (access.AsksFor grid item piece.region piece.offset)

private theorem Access.Leads.region?_of_mem
    {access : Access} {grid : Grid} {item : WorkItem} {region held : Region} {level : Level}
    (leads : access.Leads grid item region level)
    (inLevel : held ∈ level.regions) :
    grid.region? held.id = some held := by
  obtain ⟨_, _, levelAt⟩ := Grid.levelAt?_eq_some_iff.mp leads.level_eq
  exact Grid.region?_of_mem_level levelAt inLevel

private theorem Piece.holding_flatten_iff
    {pieces : List (List Piece)} {source : RegionId × Vec} {cell : Cell} :
    Holding pieces.flatten source cell ↔ ∃ held ∈ pieces, Holding held source cell := by
  unfold Holding
  simp only [List.mem_flatten]
  constructor
  · rintro ⟨piece, ⟨held, heldMember, inHeld⟩, fromPlace, inPiece⟩
    exact ⟨held, heldMember, piece, inHeld, fromPlace, inPiece⟩
  · rintro ⟨held, heldMember, piece, inHeld, fromPlace, inPiece⟩
    exact ⟨piece, ⟨held, heldMember, inHeld⟩, fromPlace, inPiece⟩

/-- Where every piece holds a cell, the places of pieces are those where
something is held. -/
private theorem Piece.exists_holding_iff
    {pieces : List Piece} {source : RegionId × Vec}
    (hold : ∀ piece ∈ pieces, piece.box.isEmpty = false) :
    (∃ cell, Holding pieces source cell) ↔ source ∈ pieces.map place := by
  rw [List.mem_map]
  constructor
  · rintro ⟨_, piece, member, fromPlace, _⟩
    exact ⟨piece, member, fromPlace⟩
  · rintro ⟨piece, member, fromPlace⟩
    obtain ⟨cell, inPiece⟩ := Box.isEmpty_eq_false_iff_exists.mp (hold piece member)
    exact ⟨cell, piece, member, fromPlace, inPiece⟩

/-- For a bound region an access needs the region itself, or what its halo needs
from the level that the access leads to. -/
theorem exists_level_of_piecesFor
    {grid : Grid} {unit : WorkUnit} {access : Access} {id : RegionId} {pieces : List Piece}
    (regional : access.domain ≠ .wholeDomain)
    (piecesOk : piecesFor grid unit access id = .ok pieces) :
    ∃ region level, region.id = id ∧ grid.region? region.id = some region ∧
      grid.levelAt? region.level access.domain.levelOffset = some level ∧
        ((access.domain.levelOffset = 0 ∧ access.halo.isGhosted = false ∧
            pieces = [⟨region.id, region.box, .zero⟩]) ∨
          haloPieces grid access.halo region level access.domain.levelOffset = .ok pieces) := by
  unfold piecesFor at piecesOk
  cases regionAt : grid.region? id with
  | none =>
      rw [regionAt] at piecesOk
      cases piecesOk
  | some region =>
      rw [regionAt] at piecesOk
      obtain rfl : region.id = id := Grid.id_of_region?_eq_some regionAt
      dsimp only at piecesOk
      unfold piecesOf at piecesOk
      dsimp only at piecesOk
      cases levelAt : grid.levelAt? region.level access.domain.levelOffset with
      | none =>
          rw [levelAt] at piecesOk
          cases piecesOk
      | some level =>
          rw [levelAt] at piecesOk
          dsimp only at piecesOk
          refine ⟨region, level, rfl, regionAt, levelAt, ?_⟩
          rw [if_neg regional] at piecesOk
          by_cases bare : access.domain.levelOffset = 0 ∧ ¬ access.halo.isGhosted = true
          · rw [if_pos bare] at piecesOk
            cases piecesOk
            exact Or.inl ⟨bare.1, Bool.eq_false_iff.mpr bare.2, rfl⟩
          · rw [if_neg bare] at piecesOk
            exact Or.inr (orArithmetic_eq_ok_iff.mp piecesOk)

section

variable {grid : Grid} {unit : WorkUnit} {access : Access}
variable
  (indexed : grid.Indexed)
  (disjoint : ∀ level ∈ grid.levels,
    level.regions.Pairwise fun left right => left.box.overlaps right.box = false)
  (regional : access.domain ≠ .wholeDomain)
  (wide : 0 ≤ access.halo.width.val)

include indexed disjoint regional wide

/-- What an access needs for a bound region comes from the level it leads to. -/
private theorem exists_suppliedBy_of_piecesFor
    {id : RegionId} {pieces : List Piece}
    (piecesOk : piecesFor grid unit access id = .ok pieces) :
    ∃ region level, region.id = id ∧ grid.region? region.id = some region ∧
      grid.levelAt? region.level access.domain.levelOffset = some level ∧
        access.halo.SuppliedBy grid region level pieces := by
  obtain ⟨region, level, rfl, regionAt, levelAt, needs⟩ :=
    exists_level_of_piecesFor regional piecesOk
  obtain ⟨own, ownAt, inOwn⟩ := Grid.exists_level_of_region? indexed regionAt
  refine ⟨region, level, rfl, regionAt, levelAt, ?_⟩
  rcases needs with ⟨here, bare, rfl⟩ | gathered
  · rw [here, Grid.levelAt?_zero, ownAt] at levelAt
    cases levelAt
    exact suppliedBy_of_bare indexed ownAt inOwn wide
      (disjoint level (List.mem_of_getElem? ownAt)) bare
  · exact suppliedBy_haloPieces indexed ownAt inOwn wide levelAt gathered

private theorem holding_iff_asksFor
    {item : WorkItem} {pieces : List (List Piece)} {id : RegionId} {shift : Vec} {cell : Cell}
    (piecesOk :
      (item.regions.filter access.admits).mapM (piecesFor grid unit access) = .ok pieces) :
    Piece.Holding pieces.flatten (id, shift) cell ↔ access.AsksFor grid item id shift cell := by
  rw [Piece.holding_flatten_iff]
  constructor
  · rintro ⟨held, heldMember, holding⟩
    obtain ⟨bound, boundMember, heldOk⟩ := exists_of_mem_mapM piecesOk heldMember
    obtain ⟨inItem, admitted⟩ := List.mem_filter.mp boundMember
    obtain ⟨region, level, rfl, regionAt, levelAt, supplied⟩ :=
      exists_suppliedBy_of_piecesFor indexed disjoint regional wide heldOk
    exact ⟨region, level, ⟨inItem, admitted, regionAt, levelAt⟩,
      (supplied.holding_iff id shift cell).mp holding⟩
  · rintro ⟨region, level, leads, asked⟩
    obtain ⟨held, heldMember, heldOk⟩ :=
      mapM_result_of_mem piecesOk (List.mem_filter.mpr ⟨leads.bound, leads.admitted⟩)
    obtain ⟨other, otherLevel, sameId, otherAt, otherLevelAt, supplied⟩ :=
      exists_suppliedBy_of_piecesFor indexed disjoint regional wide heldOk
    rw [sameId, leads.on_grid] at otherAt
    cases otherAt
    rw [leads.level_eq] at otherLevelAt
    cases otherLevelAt
    exact ⟨held, heldMember, (supplied.holding_iff id shift cell).mpr asked⟩

private theorem not_empty_of_mem_piecesFor
    {item : WorkItem} {pieces : List (List Piece)}
    (piecesOk :
      (item.regions.filter access.admits).mapM (piecesFor grid unit access) = .ok pieces) :
    ∀ piece ∈ pieces.flatten, piece.box.isEmpty = false := by
  intro piece member
  obtain ⟨held, heldMember, inHeld⟩ := List.mem_flatten.mp member
  obtain ⟨_, _, heldOk⟩ := exists_of_mem_mapM piecesOk heldMember
  obtain ⟨_, _, _, _, _, supplied⟩ :=
    exists_suppliedBy_of_piecesFor indexed disjoint regional wide heldOk
  exact supplied.not_empty piece inHeld

private theorem decomposes_joinPieces
    {item : WorkItem} {pieces : List (List Piece)}
    (piecesOk :
      (item.regions.filter access.admits).mapM (piecesFor grid unit access) = .ok pieces) :
    access.Decomposes grid item (joinPieces pieces.flatten) := by
  have hold := not_empty_of_mem_piecesFor indexed disjoint regional wide piecesOk
  have asks : ∀ {id shift cell},
      Piece.Holding pieces.flatten (id, shift) cell ↔ access.AsksFor grid item id shift cell :=
    holding_iff_asksFor indexed disjoint regional wide piecesOk
  have joined := isLeastAround_of_mem_joinPieces hold
  have least : ∀ piece ∈ joinPieces pieces.flatten,
      piece.box.IsLeastAround (access.AsksFor grid item piece.region piece.offset) :=
    fun piece member => (joined piece member).2.congr fun _ => asks
  have exists_iff : ∀ id shift,
      (∃ piece ∈ joinPieces pieces.flatten, piece.region = id ∧ piece.offset = shift) ↔
        ∃ cell, access.AsksFor grid item id shift cell := by
    intro id shift
    have places :
        (∃ piece ∈ joinPieces pieces.flatten, piece.region = id ∧ piece.offset = shift) ↔
          (id, shift) ∈ (joinPieces pieces.flatten).map Piece.place := by
      simp only [List.mem_map, Piece.place, Prod.mk.injEq]
    rw [places, mem_map_place_joinPieces, ← Piece.exists_holding_iff hold]
    exact exists_congr fun _ => asks
  refine ⟨ascending_joinPieces _, fun piece member => (joined piece member).1,
    fun piece member => ?_, exists_iff, least⟩
  obtain ⟨_, region, level, leads, sees, held, inLevel, fromHeld, _⟩ :=
    (exists_iff piece.region piece.offset).mp ⟨piece, member, rfl, rfl⟩
  refine ⟨region, level, leads, sees, held, inLevel, fromHeld,
    (least piece member).least held.box ?_⟩
  -- A number belongs to one region of the grid, so whatever is asked for lies in the same box.
  rintro cell ⟨_, _, otherLeads, _, other, otherIn, fromOther, inOther, _⟩
  have heldAt := leads.region?_of_mem inLevel
  rw [fromHeld, ← fromOther, otherLeads.region?_of_mem otherIn] at heldAt
  cases heldAt
  exact inOther

end

theorem targets_of_no_regions
    {grid : Grid} {item : WorkItem} {unit : WorkUnit} {access : Access}
    (notReduction : access.label.isReduction = false)
    (regional : access.domain ≠ .wholeDomain)
    (unplaced : item.regions = []) :
    targets grid item unit access = .ok (if unit.isGlobal = true then [.global] else []) := by
  unfold targets targetsWithoutRegion
  rw [notReduction, if_neg Bool.false_ne_true, unplaced, List.isEmpty_nil, if_pos rfl,
    if_neg regional]
  split
  · rfl
  · rfl

/-- The targets of an access that is no reduction and not to a whole level, if
nothing fails: pieces that decompose what the item asks for. A global value
takes their place only where an item of a global unit has no regions. -/
theorem targets_decomposed
    {grid : Grid} {item : WorkItem} {unit : WorkUnit} {access : Access} {found : List Target}
    (indexed : grid.Indexed)
    (disjoint : ∀ level ∈ grid.levels,
      level.regions.Pairwise fun left right => left.box.overlaps right.box = false)
    (notReduction : access.label.isReduction = false)
    (regional : access.domain ≠ .wholeDomain)
    (wide : 0 ≤ access.halo.width.val)
    (foundOk : targets grid item unit access = .ok found) :
    ∃ pieces, access.Decomposes grid item pieces ∧
      found =
        if item.regions = [] ∧ unit.isGlobal = true then [.global] else pieces.map .part := by
  by_cases unplaced : item.regions = []
  · rw [targets_of_no_regions notReduction regional unplaced] at foundOk
    cases foundOk
    have nothing :
        (item.regions.filter access.admits).mapM (piecesFor grid unit access) = .ok [] := by
      rw [unplaced]
      rfl
    refine ⟨_, decomposes_joinPieces indexed disjoint regional wide nothing, ?_⟩
    simp only [unplaced, true_and]
    rfl
  · obtain ⟨pieces, piecesOk, rfl⟩ := (targets_eq_ok_iff notReduction unplaced).mp foundOk
    refine ⟨_, decomposes_joinPieces indexed disjoint regional wide piecesOk, ?_⟩
    rw [if_neg fun both => unplaced both.1]

/-! ## The ring beneath two finer cubes -/

namespace Row

/-- Two cubes above the ends of the ring, half as coarse. -/
def ends : Level where
  index := 1
  ratio := .splat two
  periodic := .none
  regions := [
    ⟨⟨2⟩, 1, ⟨.zero, .splat two⟩⟩,
    ⟨⟨3⟩, 1, ⟨⟨.clamp 14, .zero, .zero⟩, ⟨.clamp 16, two, two⟩⟩⟩]
  domain := ⟨.zero, ⟨.clamp 16, two, two⟩⟩
  widest := two
  coherent := by constructor <;> decide

def steppedGrid : Grid := ⟨[ring, ends], by decide⟩

def onEnds : WorkItem := { onLeft with regions := [⟨2⟩, ⟨3⟩] }

/-- Asks for what lies across the faces of a cube from the ring beneath. -/
def beneath : Access := { acrossFaces with domain := .coarserLevel 1 }

/-- The offset at which the start of the ring comes after its end. -/
def after : Vec := ⟨eight, .zero, .zero⟩

/-- Each half of the ring is needed under one cube, in a box wider than what
lies across its faces, and at its far end beside the other cube. -/
def underEnds : List Target := [
  .part ⟨⟨0⟩, ⟨.zero, .splat two⟩, .zero⟩,
  .part ⟨⟨0⟩, ⟨.zero, .one⟩, after⟩,
  .part ⟨⟨1⟩, ⟨⟨.clamp 7, .zero, .zero⟩, ⟨eight, .one, .one⟩⟩, before⟩,
  .part ⟨⟨1⟩, ⟨⟨.clamp 6, .zero, .zero⟩, ⟨eight, two, two⟩⟩, .zero⟩]

end Row

theorem targets_decomposed_under_ends :
    targets Row.steppedGrid Row.onEnds (Row.unit "relax" [⟨2⟩, ⟨3⟩]) Row.beneath =
        .ok Row.underEnds ∧
      ∃ pieces, Row.beneath.Decomposes Row.steppedGrid Row.onEnds pieces ∧
        Row.underEnds = pieces.map .part := by
  have computed :
      targets Row.steppedGrid Row.onEnds (Row.unit "relax" [⟨2⟩, ⟨3⟩]) Row.beneath =
        .ok Row.underEnds := rfl
  have indexed : Row.steppedGrid.Indexed := Grid.indexed_iff.mpr rfl
  have disjoint : ∀ level ∈ Row.steppedGrid.levels,
      level.regions.Pairwise fun left right => left.box.overlaps right.box = false := by
    decide
  obtain ⟨pieces, decomposes, foundEq⟩ :=
    targets_decomposed indexed disjoint rfl (by decide) (by decide) computed
  exact ⟨computed, pieces, decomposes, foundEq⟩

end MeshTasks
