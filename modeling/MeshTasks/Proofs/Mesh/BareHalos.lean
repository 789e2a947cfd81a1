import MeshTasks.Proofs.Mesh.Ancestors
import MeshTasks.Proofs.Mesh.Coarsening

/-!
# Halos that are not ghosted

A halo that is not ghosted reaches past nothing. On the level of the bound
region it is not looked at; on the way to another level it is, and a negative
width takes cells away from the region before the region is carried. So an
access with such a halo reads what it reads without one, unless the width is
negative and the access leads to another level.
-/

namespace MeshTasks

namespace Access

/-- The access without its halo. -/
def withoutHalo (access : Access) : Access := { access with halo := .none }

variable (access : Access)

@[simp]
theorem withoutHalo_label : access.withoutHalo.label = access.label := rfl

@[simp]
theorem withoutHalo_domain : access.withoutHalo.domain = access.domain := rfl

@[simp]
theorem withoutHalo_halo : access.withoutHalo.halo = .none := rfl

@[simp]
theorem withoutHalo_admits : access.withoutHalo.admits = access.admits := rfl

end Access

/-! ## Halos without width -/

namespace Box

variable {box : Box} {width : Coord}

private theorem dilate_of_zero (still : width.val = 0) : box.dilate width = .ok box := by
  have low : box.low.sub (.splat width) = .ok box.low := by
    simp [Vec.sub_eq_ok_iff, Vec.splat, still]
  have high : box.high.add (.splat width) = .ok box.high := by
    simp [Vec.add_eq_ok_iff, Vec.splat, still]
  exact bind_eq_ok_iff.mpr ⟨box.low, low, bind_eq_ok_iff.mpr ⟨box.high, high, rfl⟩⟩

private theorem dilateAxis_of_zero (still : width.val = 0) (axis : Axis) :
    box.dilateAxis axis width = .ok box := by
  have low : (box.low.get axis).sub width = .ok (box.low.get axis) := by
    simp [Coord.sub, Coord.checked_eq_ok_iff, still]
  have high : (box.high.get axis).add width = .ok (box.high.get axis) := by
    simp [Coord.add, Coord.checked_eq_ok_iff, still]
  refine bind_eq_ok_iff.mpr ⟨_, low, bind_eq_ok_iff.mpr ⟨_, high, ?_⟩⟩
  cases axis <;> rfl

end Box

namespace Halo

variable {halo : Halo}

/-- Without a width a halo needs the box it surrounds, perhaps several times. -/
private theorem exists_boxes_eq_replicate
    (bounded : halo.shape ≠ .domainWide)
    (still : halo.shape = .none ∨ halo.width.val = 0)
    (box : Box) :
    ∃ count, ∀ domain, halo.boxes domain box = .ok (List.replicate (count + 1) box) := by
  unfold boxes
  cases shape : halo.shape with
  | none => exact ⟨0, fun _ => rfl⟩
  | domainWide => exact absurd shape bounded
  | cornerAdjacent =>
      have noWidth : halo.width.val = 0 := still.resolve_left (by simp [shape])
      dsimp only
      rw [Box.dilate_of_zero noWidth]
      exact ⟨0, fun _ => rfl⟩
  | faceAdjacent =>
      have noWidth : halo.width.val = 0 := still.resolve_left (by simp [shape])
      exact ⟨2, fun _ => mapM_eq_ok_map fun axis _ => Box.dilateAxis_of_zero noWidth axis⟩

private theorem bounded_of_bare (bare : halo.isGhosted = false) : halo.shape ≠ .domainWide := by
  intro shape
  simp [isGhosted, shape] at bare

/-- A width that is not negative is none at all. -/
theorem still_of_bare
    (bare : halo.isGhosted = false)
    (wide : halo.shape = .none ∨ 0 ≤ halo.width.val) :
    halo.shape = .none ∨ halo.width.val = 0 := by
  cases shape : halo.shape with
  | none => exact Or.inl rfl
  | domainWide => exact absurd shape (bounded_of_bare bare)
  | faceAdjacent | cornerAdjacent =>
      have narrow : ¬ Coord.zero < halo.width := by simpa [isGhosted, shape] using bare
      have nonneg : 0 ≤ halo.width.val := wide.resolve_left (by simp [shape])
      exact Or.inr (Int.le_antisymm (Int.not_lt.mp narrow) nonneg)

end Halo

/-! ## Targets of accesses without width -/

/-- What regions of a level hold of a box that was carried there, if it was. -/
def carriedPieces (target : Level) (carried : Option Box) : List Piece :=
  carried.elim [] fun box => piecesWithin target box .zero

/-- Two lists have the same pieces, all with cells. -/
structure SamePieces (left right : List Piece) : Prop where
  hold : ∀ piece ∈ left, piece.box.isEmpty = false
  mem_iff : ∀ piece, piece ∈ left ↔ piece ∈ right

private theorem SamePieces.flatten
    {lefts rights : List (List Piece)}
    (same : List.Forall₂ SamePieces lefts rights) :
    SamePieces lefts.flatten rights.flatten := by
  induction same with
  | nil => exact ⟨fun _ member => absurd member List.not_mem_nil, fun _ => Iff.rfl⟩
  | cons head _ inductionHypothesis =>
      refine ⟨fun piece member => ?_, fun piece => ?_⟩
      · rcases List.mem_append.mp member with inHead | inTail
        · exact head.hold piece inHead
        · exact inductionHypothesis.hold piece inTail
      · rw [List.flatten_cons, List.flatten_cons, List.mem_append, List.mem_append,
          head.mem_iff, inductionHypothesis.mem_iff]

section

variable {grid : Grid} {halo : Halo} {region : Region} {target : Level} {steps : Int}

private theorem holds_of_mem_carriedPieces
    {carried : Option Box} {piece : Piece}
    (member : piece ∈ carriedPieces target carried) :
    piece.box.isEmpty = false := by
  cases carried with
  | none => cases member
  | some box =>
      obtain ⟨_, _, supplies⟩ := mem_piecesWithin_zero_iff.mp member
      exact supplies.is_part.not_empty

private theorem flatten_carriedPieces (carried : List (Option Box)) :
    ((carried.filterMap id).map fun box => piecesWithin target box .zero).flatten =
      carried.flatMap (carriedPieces target) := by
  induction carried with
  | nil => rfl
  | cons head tail inductionHypothesis =>
      rw [List.flatMap_cons, ← inductionHypothesis]
      cases head <;> rfl

/-- A halo that is not ghosted needs its boxes where they are carried, but no
images. -/
private theorem haloPieces_of_bare
    {boxes : List Box}
    (bare : halo.isGhosted = false)
    (boxesOk : ∀ domain, halo.boxes domain region.box = .ok boxes) :
    haloPieces grid halo region target steps =
      (fun carried => carried.flatMap (carriedPieces target)) <$>
        boxes.mapM fun box => carryBox grid box region.level target.index steps := by
  unfold haloPieces
  dsimp only
  rw [boxesOk]
  show (pure boxes >>= _) = _
  rw [pure_bind]
  cases boxes.mapM fun box => carryBox grid box region.level target.index steps with
  | error fault => rfl
  | ok carried =>
      have whole : ∀ box ∈ carried.filterMap id,
          (if halo.isGhosted then
            piecesWithImages target box
          else
            .ok (piecesWithin target box .zero)) =
              Except.ok (piecesWithin target box .zero) :=
        fun box _ => if_neg (by simp [bare])
      show (pure carried >>= _) = _
      rw [pure_bind, mapM_eq_ok_map whole]
      exact congrArg Except.ok (flatten_carriedPieces carried)

/-- Without a width a halo needs what is needed without it. -/
private theorem haloPieces_alike
    (bare : halo.isGhosted = false)
    (still : halo.shape = .none ∨ halo.width.val = 0) :
    Alike Eq SamePieces (haloPieces grid halo region target steps)
      (haloPieces grid .none region target steps) := by
  obtain ⟨count, boxesOk⟩ :=
    Halo.exists_boxes_eq_replicate (Halo.bounded_of_bare bare) still region.box
  rw [haloPieces_of_bare bare boxesOk, haloPieces_of_bare rfl fun _ => rfl, mapM_replicate,
    ← List.replicate_one, mapM_replicate]
  cases carryBox grid region.box region.level target.index steps with
  | error fault => exact .error rfl
  | ok carried =>
      refine .ok ⟨fun piece member => ?_, fun piece => ?_⟩
      · obtain ⟨_, _, inPieces⟩ := List.mem_flatMap.mp member
        exact holds_of_mem_carriedPieces inPieces
      · simp [List.mem_flatMap, List.mem_replicate]

end

/-- What is joined of the same pieces is the same. -/
private theorem joined_eq_of_alike
    {left right : Except Error (List (List Piece))}
    (alike : Alike Eq (List.Forall₂ SamePieces) left right) :
    (left >>= fun pieces => pure ((joinPieces pieces.flatten).map Target.part)) =
      (right >>= fun pieces => pure ((joinPieces pieces.flatten).map Target.part)) := by
  cases alike with
  | error same => rw [same]
  | ok same =>
      have joined := joinPieces_eq_of_mem_iff (SamePieces.flatten same).hold
        (SamePieces.flatten same).mem_iff
      exact congrArg (fun pieces => Except.ok (pieces.map Target.part)) joined

/-- Across levels an access needs what its halo needs from the other level. -/
private theorem piecesFor_of_across
    {grid : Grid} {unit : WorkUnit} {access : Access} {id : RegionId} {region : Region}
    {target : Level}
    (across : access.domain.levelOffset ≠ 0)
    (regionAt : grid.region? id = some region)
    (targetAt : grid.levelAt? region.level access.domain.levelOffset = some target) :
    piecesFor grid unit access id =
      orArithmetic (haloPieces grid access.halo region target access.domain.levelOffset) := by
  have notWhole : access.domain ≠ .wholeDomain := by
    intro whole
    rw [whole] at across
    exact across rfl
  unfold piecesFor
  rw [regionAt]
  dsimp only
  unfold piecesOf
  dsimp only
  rw [targetAt]
  dsimp only
  rw [if_neg notWhole, if_neg fun both => across both.1]

section

variable {grid : Grid} {item : WorkItem} {unit : WorkUnit} {access : Access}
  (bare : access.halo.isGhosted = false)

include bare

/-- On the level of the bound region the halo is not looked at. -/
theorem piecesFor_withoutHalo (onLevel : access.domain.levelOffset = 0) :
    piecesFor grid unit access.withoutHalo = piecesFor grid unit access := by
  have bareNone : Halo.none.isGhosted = false := rfl
  funext id
  unfold piecesFor
  cases grid.region? id with
  | none => rfl
  | some region =>
      simp only [piecesOf, Access.withoutHalo_domain, Access.withoutHalo_halo, onLevel, bare,
        bareNone]
      rfl

private theorem piecesFor_alike
    (across : access.domain.levelOffset ≠ 0)
    (still : access.halo.shape = .none ∨ access.halo.width.val = 0)
    (id : RegionId) :
    Alike Eq SamePieces (piecesFor grid unit access id)
      (piecesFor grid unit access.withoutHalo id) := by
  cases regionAt : grid.region? id with
  | none =>
      simp only [piecesFor, regionAt]
      exact .error rfl
  | some region =>
      cases targetAt : grid.levelAt? region.level access.domain.levelOffset with
      | none =>
          simp only [piecesFor, regionAt, piecesOf, targetAt, Access.withoutHalo_domain]
          exact .error rfl
      | some target =>
          have acrossToo : access.withoutHalo.domain.levelOffset ≠ 0 := across
          rw [piecesFor_of_across across regionAt targetAt,
            piecesFor_of_across acrossToo regionAt targetAt]
          exact (haloPieces_alike bare still).orArithmetic

/-- An access whose halo is neither ghosted nor of negative width has the
targets of the access without it, as has any access with a halo that is not
ghosted if it stays on the level. -/
theorem targets_withoutHalo
    (plain : access.domain.levelOffset = 0 ∨ access.halo.shape = .none ∨
      0 ≤ access.halo.width.val) :
    targets grid item unit access = targets grid item unit access.withoutHalo := by
  by_cases reduction : access.label.isReduction = true
  · simp [targets, reduction]
  · by_cases placed : item.regions = []
    · have asUnit : targetsWithoutRegion grid unit access.withoutHalo =
          targetsWithoutRegion grid unit access := rfl
      simp [targets, reduction, placed, asUnit]
    · rw [Bool.not_eq_true] at reduction
      have noReduction : access.withoutHalo.label.isReduction = false := reduction
      rw [targets_of_placed reduction placed, targets_of_placed noReduction placed,
        Access.withoutHalo_admits]
      rcases Decidable.em (access.domain.levelOffset = 0) with onLevel | across
      · rw [piecesFor_withoutHalo bare onLevel]
      · have still := Halo.still_of_bare bare (plain.resolve_left across)
        exact joined_eq_of_alike (Alike.mapM fun id _ => piecesFor_alike bare across still id)

end

/-! ## A tower of cubes

Levels without refinement, each with one cube of two cells along each axis. Any negative width
leaves nothing of the cube, and nothing is rounded on the way from level to level. -/

namespace Tower

def cube : Box := ⟨.splat (.clamp (-1)), .splat .one⟩

def region (position : Nat) : Region := ⟨⟨.ofNat position⟩, position, cube⟩

def level (position : Nat) : Level where
  index := position
  ratio := .one
  periodic := .none
  regions := [region position]
  domain := cube
  widest := Row.two
  coherent := {
    ratio_positive := by decide
    on_level := List.forall_mem_singleton.mpr rfl
    not_empty := List.forall_mem_singleton.mpr rfl
    in_domain := List.forall_mem_singleton.mpr rfl
    within_widest := List.forall_mem_singleton.mpr (Int.le_refl 2)
    ordered := List.pairwise_singleton _ _ }

variable (top : UInt32)

def levels : List Level := (List.range (top.toNat + 1)).map level

private theorem distinct : ((Grid.regionsOf (levels top)).map Region.id).Nodup := by
  have ids : (Grid.regionsOf (levels top)).map Region.id =
      (List.range (top.toNat + 1)).map fun position => (region position).id := by
    rw [Grid.regionsOf, levels, List.flatMap_map, List.map_flatMap]
    exact List.map_eq_flatMap.symm
  have bound := top.toNat_lt
  rw [ids]
  refine List.Nodup.map_on (fun first firstMember second secondMember same => ?_) List.nodup_range
  have sameNumber := congrArg (fun id : RegionId => id.number.toNat) same
  rw [List.mem_range] at firstMember secondMember
  simp only [region, UInt32.toNat_ofNat'] at sameNumber
  omega

def grid : Grid := ⟨levels top, distinct top⟩

variable {top} {position source target : Nat}

private theorem level?_grid (below : position ≤ top.toNat) :
    (grid top).level? position = some (level position) := by
  have inRange : position < (List.range (top.toNat + 1)).length := by
    rw [List.length_range]
    omega
  simp [Grid.level?, grid, levels, List.getElem?_eq_getElem inRange]

private theorem region?_grid (below : position ≤ top.toNat) :
    (grid top).region? (region position).id = some (region position) :=
  Grid.region?_of_mem_level (level?_grid below) List.mem_cons_self

private theorem ratio_eq_one
    {ratio : Vec}
    (member : ratio ∈ (grid top).ratiosBetween source target) :
    ratio = .one := by
  obtain ⟨between, inStretch, rfl⟩ := List.mem_map.mp member
  obtain ⟨position, _, rfl⟩ :=
    List.mem_map.mp (List.mem_of_mem_drop (List.mem_of_mem_take inStretch))
  rfl

private theorem coarsen_one {box : Box} (above : ∀ axis, -2147483648 < (box.high.get axis).val) :
    box.coarsen .one = .ok box := by
  obtain ⟨coarse, coarsened⟩ := Box.exists_coarsen (by decide : Vec.one.isPositive = true) above
  have spec := Box.coarsen_spec coarsened
  have oneHere : ∀ axis, (Vec.one.get axis).val = 1 := fun axis => by cases axis <;> rfl
  have same : coarse = box := by
    apply Box.ext <;> refine Vec.eq_of_get_eq fun axis => ?_
    · rw [(spec axis).1, oneHere, Int.ediv_one]
    · rw [(spec axis).2, oneHere, Int.ediv_one, Int.neg_neg]
  rw [coarsened, same]

private theorem refine_one (box : Box) : box.refine .one = .ok box := by
  have low : box.low.mul .one = .ok box.low := by
    simp [Vec.mul_eq_ok_iff, Vec.one, Vec.splat, Coord.one]
  have high : box.high.mul .one = .ok box.high := by
    simp [Vec.mul_eq_ok_iff, Vec.one, Vec.splat, Coord.one]
  exact bind_eq_ok_iff.mpr ⟨box.low, low, bind_eq_ok_iff.mpr ⟨box.high, high, rfl⟩⟩

/-- A box is the same on every level. -/
private theorem carryBox_grid
    {box : Box}
    (above : ∀ axis, -2147483648 < (box.high.get axis).val)
    (sourceBelow : source ≤ top.toNat)
    (targetBelow : target ≤ top.toNat) :
    carryBox (grid top) box source target (target - source) = .ok (some box) := by
  have length : (grid top).levels.length = top.toNat + 1 := by simp [grid, levels]
  unfold carryBox
  split
  · rfl
  · split
    · have coarsened : ((grid top).ratiosBetween target source).reverse.foldlM Box.coarsen box =
          .ok box := by
        refine foldlM_eq_self fun ratio member => ?_
        rw [ratio_eq_one (List.mem_reverse.mp member)]
        exact coarsen_one above
      rw [Grid.coarsenBox, if_neg (by omega), coarsened]
      rfl
    · have refined : ((grid top).ratiosBetween source target).foldlM Box.refine box = .ok box := by
        refine foldlM_eq_self fun ratio member => ?_
        rw [ratio_eq_one member]
        exact refine_one box
      rw [Grid.refineBox, if_neg (by omega), refined]
      rfl

private theorem piecesWithin_cube : piecesWithin (level position) cube .zero =
    [⟨(region position).id, cube, .zero⟩] := rfl

private theorem piecesWithin_of_isEmpty {box : Box} (empty : box.isEmpty = true) :
    piecesWithin (level position) box .zero = [] := by
  unfold piecesWithin Level.selectOverlapping
  rw [if_pos empty]
  rfl

private theorem low_cube (axis : Axis) : (cube.low.get axis).val = -1 := by cases axis <;> rfl

private theorem high_cube (axis : Axis) : (cube.high.get axis).val = 1 := by cases axis <;> rfl

section

variable {width : Coord} (negative : width.val < 0)

include negative

private theorem exists_low (axis : Axis) : ∃ low, (cube.low.get axis).sub width = .ok low := by
  have lower := width.lower
  have lowEq := low_cube axis
  exact Coord.exists_checked (by omega) (by omega)

private theorem exists_high (axis : Axis) : ∃ high, (cube.high.get axis).add width = .ok high := by
  have lower := width.lower
  have highEq := high_cube axis
  exact Coord.exists_checked (by omega) (by omega)

private theorem exists_dilate_of_negative :
    ∃ box, cube.dilate width = .ok box ∧
      box.isEmpty = true ∧ ∀ axis, -2147483648 < (box.high.get axis).val := by
  have lower := width.lower
  obtain ⟨box, dilated⟩ := Box.exists_dilate (exists_low negative) (exists_high negative)
  have spec := Box.dilate_spec dilated
  simp only [low_cube, high_cube] at spec
  refine ⟨box, dilated, Box.isEmpty_of_get .x ?_, fun axis => ?_⟩
  · have here := spec .x
    omega
  · have here := (spec axis).2
    omega

private theorem exists_dilateAxis_of_negative (across : Axis) :
    ∃ box, cube.dilateAxis across width = .ok box ∧
      box.isEmpty = true ∧ ∀ axis, -2147483648 < (box.high.get axis).val := by
  have lower := width.lower
  obtain ⟨box, dilated⟩ :=
    Box.exists_dilateAxis (exists_low negative across) (exists_high negative across)
  have spec := Box.dilateAxis_spec dilated
  simp only [low_cube, high_cube] at spec
  refine ⟨box, dilated, Box.isEmpty_of_get across ?_, fun axis => ?_⟩
  · have here := spec across
    rw [if_pos rfl] at here
    omega
  · have here := (spec axis).2
    split at here <;> omega

end

/-- A halo of negative width leaves nothing of the cube. -/
private theorem exists_boxes_of_negative
    {halo : Halo}
    (bare : halo.isGhosted = false)
    (shaped : halo.shape ≠ .none)
    (negative : halo.width.val < 0) :
    ∃ boxes, (∀ domain, halo.boxes domain cube = .ok boxes) ∧
      ∀ box ∈ boxes, box.isEmpty = true ∧ ∀ axis, -2147483648 < (box.high.get axis).val := by
  unfold Halo.boxes
  cases shape : halo.shape with
  | none => exact absurd shape shaped
  | domainWide => exact absurd shape (Halo.bounded_of_bare bare)
  | cornerAdjacent =>
      obtain ⟨box, dilated, gone⟩ := exists_dilate_of_negative negative
      exact ⟨[box], fun _ => bind_eq_ok_iff.mpr ⟨box, dilated, rfl⟩,
        List.forall_mem_singleton.mpr gone⟩
  | faceAdjacent =>
      have each := fun across (_ : across ∈ Axis.all) =>
        exists_dilateAxis_of_negative negative across
      obtain ⟨boxes, boxesOk, gone⟩ := exists_results_all_of_mapM each
      exact ⟨boxes, fun _ => boxesOk, gone⟩

/-- An item on the cube at a position. -/
def item (position : Nat) : WorkItem :=
  ⟨.unit 0, "relax", [(region position).id], none, ⟨0⟩, 0, none⟩

def access (halo : Halo) (domain : Domain) : Access :=
  { Access.of Row.density with domain := domain, halo := halo }

/-- Whatever number of levels an access leads down or up, some tower is as
high. -/
private theorem exists_ends {domain : Domain} (across : domain.levelOffset ≠ 0) :
    ∃ (top : UInt32) (source target : Nat), source ≤ top.toNat ∧ target ≤ top.toNat ∧
      domain.levelOffset = target - source := by
  cases domain with
  | regionBound | wholeDomain => exact absurd rfl across
  | coarserLevel steps =>
      exact ⟨steps, steps.toNat, 0, Nat.le_refl _, Nat.zero_le _, by simp [Domain.levelOffset]⟩
  | finerLevel steps =>
      exact ⟨steps, 0, steps.toNat, Nat.zero_le _, Nat.le_refl _, by simp [Domain.levelOffset]⟩

section

variable {halo : Halo} {domain : Domain} {boxes : List Box} {unit : WorkUnit}
  (sourceBelow : source ≤ top.toNat)
  (targetBelow : target ≤ top.toNat)
  (leads : domain.levelOffset = target - source)
  (across : domain.levelOffset ≠ 0)

include sourceBelow targetBelow leads across

private theorem targets_grid
    (bare : halo.isGhosted = false)
    (boxesOk : ∀ domain, halo.boxes domain cube = .ok boxes)
    (above : ∀ box ∈ boxes, ∀ axis, -2147483648 < (box.high.get axis).val) :
    targets (grid top) (item source) unit (access halo domain) =
      .ok ((joinPieces (boxes.flatMap fun box => piecesWithin (level target) box .zero)).map
        .part) := by
  have targetAt : (grid top).levelAt? source domain.levelOffset = some (level target) :=
    Grid.levelAt?_eq_some_iff.mpr ⟨target, by omega, level?_grid targetBelow⟩
  have needed : piecesFor (grid top) unit (access halo domain) (region source).id = _ :=
    piecesFor_of_across across (region?_grid sourceBelow) targetAt
  have carried : ∀ box ∈ boxes,
      carryBox (grid top) box source target domain.levelOffset = .ok (some box) := by
    intro box member
    rw [leads]
    exact carryBox_grid (above box member) sourceBelow targetBelow
  have gathered : haloPieces (grid top) halo (region source) (level target) domain.levelOffset =
      .ok (boxes.flatMap fun box => piecesWithin (level target) box .zero) := by
    rw [haloPieces_of_bare bare boxesOk]
    show _ <$> boxes.mapM (fun box => carryBox (grid top) box source target domain.levelOffset) = _
    rw [mapM_eq_ok_map carried]
    exact congrArg Except.ok (List.flatMap_map _ _ _)
  rw [targets_of_admitted rfl rfl rfl, needed]
  show (orArithmetic (haloPieces (grid top) halo (region source) (level target)
    domain.levelOffset) >>= _) = _
  rw [gathered]
  rfl

private theorem targets_of_negative
    (bare : halo.isGhosted = false)
    (shaped : halo.shape ≠ .none)
    (negative : halo.width.val < 0) :
    targets (grid top) (item source) unit (access halo domain) = .ok [] := by
  obtain ⟨boxes, boxesOk, empty⟩ := exists_boxes_of_negative bare shaped negative
  have noPieces : (boxes.flatMap fun box => piecesWithin (level target) box .zero) = [] :=
    List.flatMap_eq_nil_iff.mpr fun box member => piecesWithin_of_isEmpty (empty box member).1
  rw [targets_grid sourceBelow targetBelow leads across bare boxesOk fun box member =>
    (empty box member).2, noPieces]
  rfl

private theorem targets_of_none :
    targets (grid top) (item source) unit (access .none domain) =
      .ok [.part ⟨(region target).id, cube, .zero⟩] := by
  have above : ∀ box ∈ [cube], ∀ axis, -2147483648 < (box.high.get axis).val :=
    List.forall_mem_singleton.mpr (Box.least_lt_high rfl)
  rw [targets_grid sourceBelow targetBelow leads across rfl (fun _ => rfl) above,
    List.flatMap_singleton, piecesWithin_cube]
  rfl

end

end Tower

/-! ## Which halos add nothing -/

/-- Accesses to a domain with this halo have the targets of accesses without a
halo, as long as nothing overflows. -/
def Halo.AddsNothing (halo : Halo) (domain : Domain) : Prop :=
  ∀ (grid : Grid) (item : WorkItem) (unit : WorkUnit) (access : Access),
    access.halo = halo → access.domain = domain → access.label.isReduction = false →
      (∀ fault, targets grid item unit access ≠ .error (.arithmetic fault)) →
        (∀ fault, targets grid item unit access.withoutHalo ≠ .error (.arithmetic fault)) →
          targets grid item unit access = targets grid item unit access.withoutHalo

/-- A halo that is not ghosted adds nothing to accesses on the level of the
bound region. To accesses across levels it adds nothing unless it has a shape
and a negative width. -/
theorem Halo.addsNothing_iff
    {halo : Halo} {domain : Domain}
    (bare : halo.isGhosted = false) :
    halo.AddsNothing domain ↔
      domain.levelOffset = 0 ∨ halo.shape = .none ∨ 0 ≤ halo.width.val := by
  constructor
  · intro addsNothing
    by_contra excluded
    obtain ⟨across, shaped, negative⟩ :
        domain.levelOffset ≠ 0 ∧ halo.shape ≠ .none ∧ halo.width.val < 0 := by
      simpa only [not_or, Int.not_le] using excluded
    obtain ⟨top, source, target, sourceBelow, targetBelow, leads⟩ := Tower.exists_ends across
    have nothing : targets (Tower.grid top) (Tower.item source) (Row.unit "relax" [])
        (Tower.access halo domain) = .ok [] :=
      Tower.targets_of_negative sourceBelow targetBelow leads across bare shaped negative
    have something : targets (Tower.grid top) (Tower.item source) (Row.unit "relax" [])
        (Tower.access halo domain).withoutHalo =
          .ok [.part ⟨(Tower.region target).id, Tower.cube, .zero⟩] :=
      Tower.targets_of_none sourceBelow targetBelow leads across
    have same := addsNothing (Tower.grid top) (Tower.item source) (Row.unit "relax" [])
      (Tower.access halo domain) rfl rfl rfl (by simp [nothing]) (by simp [something])
    rw [nothing, something] at same
    cases same
  · rintro plain grid item unit access rfl rfl _ _ _
    exact targets_withoutHalo bare plain

/-- Faces without a width add nothing, corners of negative width may add less
than nothing. -/
theorem Halo.addsNothing_iff_coarser :
    Halo.isGhosted ⟨.faceAdjacent, .zero⟩ = false ∧
      Halo.AddsNothing ⟨.faceAdjacent, .zero⟩ (.coarserLevel 1) ∧
        Halo.isGhosted ⟨.cornerAdjacent, .clamp (-2)⟩ = false ∧
          ¬ Halo.AddsNothing ⟨.cornerAdjacent, .clamp (-2)⟩ (.coarserLevel 1) := by
  refine ⟨rfl, (Halo.addsNothing_iff rfl).mpr (by decide), rfl, fun addsNothing => ?_⟩
  have plain := (Halo.addsNothing_iff rfl).mp addsNothing
  revert plain
  decide

/-- Two cells taken away on each side leave nothing of the first cube above the
coarser one, which without a halo reads the coarse cell beneath it. -/
theorem reads_less_beneath_cube :
    Halo.isGhosted ⟨.cornerAdjacent, .clamp (-2)⟩ = false ∧
      targets Row.cubes { Row.onLeft with regions := [⟨1⟩] } (Row.unit "relax" [⟨1⟩])
          (Tower.access ⟨.cornerAdjacent, .clamp (-2)⟩ (.coarserLevel 1)) = .ok [] ∧
        targets Row.cubes { Row.onLeft with regions := [⟨1⟩] } (Row.unit "relax" [⟨1⟩])
          (Tower.access ⟨.cornerAdjacent, .clamp (-2)⟩ (.coarserLevel 1)).withoutHalo =
            .ok (Row.underCube .one Row.two) :=
  ⟨rfl, rfl, rfl⟩

end MeshTasks
