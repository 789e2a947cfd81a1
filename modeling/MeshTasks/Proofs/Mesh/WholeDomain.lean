import MeshTasks.Proofs.Mesh.Halos

/-!
# The whole domain

An access to the whole domain lists the regions of the level. A halo as wide as
the domain takes the long way: it searches the level for what shares a cell with
the domain, cuts that to the domain, and does the same for every image of the
level. As the domain holds every region and no cell of an image, both ways give
the same targets.
-/

namespace MeshTasks

/-! ## The pieces of a domain -/

section

variable {level : Level} {region : Region}

private theorem Level.overlaps_domain (member : region ∈ level.regions) :
    region.box.overlaps level.domain = true := by
  have holds := level.coherent.not_empty region member
  have bounds : ∀ axis,
      (level.domain.low.get axis).val ≤ (region.box.low.get axis).val ∧
        (region.box.low.get axis).val < (region.box.high.get axis).val ∧
          (region.box.high.get axis).val ≤ (level.domain.high.get axis).val := by
    intro axis
    have within := within_domain member axis
    exact ⟨within.1, Box.isEmpty_eq_false_iff_get.mp holds axis, within.2⟩
  apply Box.overlaps_eq_true_iff.mpr
  refine ⟨holds, Box.isEmpty_eq_false_iff_get.mpr fun axis => ?_, fun axis => ?_⟩
  · have boundsHere := bounds axis
    omega
  · have boundsHere := bounds axis
    omega

private theorem Level.isPart_domain (member : region ∈ level.regions) :
    region.box.IsPart level.domain .zero region.box := by
  apply Box.isPart_self
  · exact within_domain member
  · exact level.coherent.not_empty region member

private theorem piecesWithin_domain (level : Level) :
    piecesWithin level level.domain .zero = wholeLevel level := by
  unfold piecesWithin wholeLevel
  rw [Level.selectOverlapping_eq_regions fun region member => Level.overlaps_domain member,
    ← List.filterMap_eq_map]
  apply List.filterMap_congr
  intro region member
  have whole : level.domain.intersect? region.box = some region.box := by
    apply (Box.intersect?_eq_some_iff fun axis => ?_).mpr (Level.isPart_domain member)
    simp [Vec.get_zero]
  simp [whole]

/-- No region holds a cell of the domain at a shift. -/
private theorem not_isPart_domain
    {shifts : List Vec} {shift : Vec} {part : Box}
    (shiftsOk : level.shifts = .ok shifts)
    (shifted : shift ∈ shifts)
    (member : region ∈ level.regions) :
    ¬ part.IsPart level.domain shift region.box := by
  intro isPart
  obtain ⟨axis, moved⟩ := Level.exists_axis_of_shift shiftsOk shifted
  have shares := isPart.shares axis
  have within := Level.within_domain member axis
  omega

/-- The images of a level hold nothing of its domain. -/
private theorem piecesWithImages_domain
    {pieces : List Piece}
    (piecesOk : piecesWithImages level level.domain = .ok pieces) :
    pieces = wholeLevel level := by
  obtain ⟨shifts, shiftsOk, rest⟩ := bind_eq_ok_iff.mp piecesOk
  obtain ⟨images, imagesOk, assembled⟩ := bind_eq_ok_iff.mp rest
  cases assembled
  have nothing : images.flatten = [] := by
    apply List.flatten_eq_nil_iff.mpr
    intro image imageMember
    obtain ⟨shift, shifted, imageOk⟩ := exists_of_mem_mapM imagesOk imageMember
    apply List.eq_nil_iff_forall_not_mem.mpr
    intro piece inImage
    obtain ⟨rfl, held, supplies⟩ := (mem_image_iff imageOk).mp inImage
    exact not_isPart_domain shiftsOk shifted supplies.on_level supplies.is_part
  rw [nothing, List.append_nil, piecesWithin_domain]

end

/-! ## The targets of both accesses -/

namespace Access

/-- The access to the bound regions with a halo as wide as the domain. -/
def withDomainHalo (access : Access) (width : Coord) : Access :=
  { access with domain := .regionBound, halo := ⟨.domainWide, width⟩ }

/-- The access to the whole domain. -/
def toWholeDomain (access : Access) : Access :=
  { access with domain := .wholeDomain }

/-- A region is on the level of a region of the item that the access admits. -/
def Spans (access : Access) (grid : Grid) (item : WorkItem) (held : Region) : Prop :=
  ∃ bound ∈ item.regions, access.admits bound = true ∧
    ∃ region level, grid.region? bound = some region ∧
      grid.level? region.level = some level ∧ held ∈ level.regions

private theorem Spans.region?_eq
    {access : Access} {grid : Grid} {item : WorkItem} {held : Region}
    (spans : access.Spans grid item held) :
    grid.region? held.id = some held := by
  obtain ⟨_, _, _, _, _, _, levelAt, inLevel⟩ := spans
  exact Grid.region?_of_mem_level levelAt inLevel

end Access

section

variable {grid : Grid} {unit : WorkUnit} {access : Access} {width : Coord}

private theorem haloPieces_domainWide
    {region : Region} {level : Level} {pieces : List Piece}
    (levelAt : grid.level? region.level = some level)
    (piecesOk : haloPieces grid ⟨.domainWide, width⟩ region level 0 = .ok pieces) :
    pieces = wholeLevel level := by
  obtain ⟨boxes, parts, boxesOk, partsOk, rfl⟩ := haloPieces_zero_eq_ok_iff.mp piecesOk
  rw [levelAt] at boxesOk
  cases boxesOk
  rw [mapM_eq_ok_iff, List.forall₂_cons_left_iff] at partsOk
  obtain ⟨part, rest, partOk, restOk, rfl⟩ := partsOk
  cases restOk
  rw [List.flatten_singleton, piecesWithImages_domain partOk]

/-- What an access to the whole domain needs for a bound region. -/
theorem piecesFor_toWholeDomain {bound : RegionId} {pieces : List Piece} :
    piecesFor grid unit access.toWholeDomain bound = .ok pieces ↔
      ∃ region level, grid.region? bound = some region ∧
        grid.level? region.level = some level ∧ pieces = wholeLevel level := by
  unfold piecesFor piecesOf
  cases regionAt : grid.region? bound with
  | none => simp
  | some region =>
      cases levelAt : grid.level? region.level with
      | none => simp [Access.toWholeDomain, Domain.levelOffset, Grid.levelAt?_zero, levelAt]
      | some level =>
          simp [Access.toWholeDomain, Domain.levelOffset, Grid.levelAt?_zero, levelAt, eq_comm]

/-- For each bound region both accesses need the same, unless arithmetic fails
on the way to the images. -/
theorem piecesFor_withDomainHalo (bound : RegionId) :
    piecesFor grid unit (access.withDomainHalo width) bound =
        piecesFor grid unit access.toWholeDomain bound ∨
      ∃ error, (∃ fault, error = .arithmetic fault) ∧
        piecesFor grid unit (access.withDomainHalo width) bound = .error error := by
  cases regionAt : grid.region? bound with
  | none => simp [piecesFor, regionAt]
  | some region =>
      cases levelAt : grid.level? region.level with
      | none =>
          left
          simp [piecesFor, piecesOf, regionAt, levelAt, Grid.levelAt?_zero, Domain.levelOffset,
            Access.withDomainHalo, Access.toWholeDomain]
      | some level =>
          have gathered : piecesFor grid unit (access.withDomainHalo width) bound =
              orArithmetic (haloPieces grid ⟨.domainWide, width⟩ region level 0) :=
            piecesFor_of_bound regionAt levelAt rfl
          have listed : piecesFor grid unit access.toWholeDomain bound = .ok (wholeLevel level) :=
            piecesFor_toWholeDomain.mpr ⟨region, level, regionAt, levelAt, rfl⟩
          rw [gathered, listed]
          cases piecesOk : haloPieces grid ⟨.domainWide, width⟩ region level 0 with
          | error fault => exact Or.inr ⟨_, ⟨fault, rfl⟩, rfl⟩
          | ok pieces =>
              rw [haloPieces_domainWide levelAt piecesOk]
              exact Or.inl rfl

/-- The pieces of an access to the whole domain are whole regions. -/
private theorem mem_pieces_toWholeDomain
    {item : WorkItem} {pieces : List (List Piece)} {piece : Piece}
    (piecesOk :
      (item.regions.filter access.admits).mapM (piecesFor grid unit access.toWholeDomain) =
        .ok pieces) :
    piece ∈ pieces.flatten ↔
      ∃ held, access.Spans grid item held ∧ piece = ⟨held.id, held.box, .zero⟩ := by
  rw [List.mem_flatten]
  constructor
  · rintro ⟨part, partMember, inPart⟩
    obtain ⟨bound, kept, partOk⟩ := exists_of_mem_mapM piecesOk partMember
    obtain ⟨inItem, admitted⟩ := List.mem_filter.mp kept
    obtain ⟨region, level, regionAt, levelAt, rfl⟩ := piecesFor_toWholeDomain.mp partOk
    obtain ⟨held, inLevel, rfl⟩ := List.mem_map.mp inPart
    exact ⟨held, ⟨bound, inItem, admitted, region, level, regionAt, levelAt, inLevel⟩, rfl⟩
  · rintro ⟨held, ⟨bound, inItem, admitted, region, level, regionAt, levelAt, inLevel⟩, rfl⟩
    have kept := List.mem_filter.mpr ⟨inItem, admitted⟩
    obtain ⟨part, partMember, partOk⟩ := mapM_result_of_mem piecesOk kept
    rw [piecesFor_toWholeDomain.mpr ⟨region, level, regionAt, levelAt, rfl⟩] at partOk
    cases partOk
    exact ⟨_, partMember, List.mem_map_of_mem inLevel⟩

private theorem mem_targets_toWholeDomain
    {item : WorkItem} {found : List Target}
    (notReduction : access.label.isReduction = false)
    (placed : item.regions ≠ [])
    (foundOk : targets grid item unit access.toWholeDomain = .ok found)
    (target : Target) :
    target ∈ found ↔
      ∃ held, access.Spans grid item held ∧ target = .part ⟨held.id, held.box, .zero⟩ := by
  have noReduction : access.toWholeDomain.label.isReduction = false := notReduction
  obtain ⟨pieces, piecesOk, rfl⟩ := (targets_eq_ok_iff noReduction placed).mp foundOk
  have agree : ∀ left ∈ pieces.flatten, ∀ right ∈ pieces.flatten,
      left.place = right.place → left = right := by
    intro left leftMember right rightMember same
    obtain ⟨first, firstSpans, rfl⟩ := (mem_pieces_toWholeDomain piecesOk).mp leftMember
    obtain ⟨second, secondSpans, rfl⟩ := (mem_pieces_toWholeDomain piecesOk).mp rightMember
    have sameId : first.id = second.id := congrArg Prod.fst same
    have firstAt := firstSpans.region?_eq
    rw [sameId, secondSpans.region?_eq] at firstAt
    rw [Option.some.inj firstAt]
  simp only [List.mem_map, mem_joinPieces_of_agree agree, mem_pieces_toWholeDomain piecesOk]
  constructor
  · rintro ⟨piece, ⟨held, spans, rfl⟩, rfl⟩
    exact ⟨held, spans, rfl⟩
  · rintro ⟨held, spans, rfl⟩
    exact ⟨_, ⟨held, spans, rfl⟩, rfl⟩

/-- An access to the bound regions with a halo as wide as the domain has the
targets of an access to the whole domain, or fails as that does: each region on
the level of a bound region, whole and at its own place, however the level
repeats itself. -/
theorem targets_withDomainHalo
    {item : WorkItem}
    (notReduction : access.label.isReduction = false)
    (placed : item.regions ≠ [])
    (fits : ∀ fault,
      targets grid item unit (access.withDomainHalo width) ≠ .error (.arithmetic fault)) :
    targets grid item unit (access.withDomainHalo width) =
        targets grid item unit access.toWholeDomain ∧
      ∀ found, targets grid item unit (access.withDomainHalo width) = .ok found →
        ∀ target, target ∈ found ↔
          ∃ held, access.Spans grid item held ∧ target = .part ⟨held.id, held.box, .zero⟩ := by
  have wide : targets grid item unit (access.withDomainHalo width) = _ :=
    targets_of_placed notReduction placed
  have whole : targets grid item unit access.toWholeDomain = _ :=
    targets_of_placed notReduction placed
  have same : targets grid item unit (access.withDomainHalo width) =
      targets grid item unit access.toWholeDomain := by
    rcases mapM_eq_or_fails piecesFor_withDomainHalo with agree | ⟨_, ⟨fault, rfl⟩, failed⟩
    · rw [wide, whole]
      exact congrArg (· >>= _) agree
    · refine absurd ?_ (fits fault)
      rw [wide]
      exact congrArg (· >>= _) failed
  refine ⟨same, fun found foundOk => ?_⟩
  rw [same] at foundOk
  exact mem_targets_toWholeDomain notReduction placed foundOk

end

/-- Both cubes of the ring. -/
def Row.allAround : List Target := [
  .part ⟨⟨0⟩, ⟨.zero, .splat four⟩, .zero⟩,
  .part ⟨⟨1⟩, ⟨⟨four, .zero, .zero⟩, ⟨eight, four, four⟩⟩, .zero⟩]

theorem targets_withDomainHalo_ring :
    targets Row.ringGrid Row.onLeft (Row.unit "relax" [⟨0⟩])
        (Row.acrossFaces.withDomainHalo .one) = .ok Row.allAround ∧
      targets Row.ringGrid Row.onLeft (Row.unit "relax" [⟨0⟩]) Row.acrossFaces.toWholeDomain =
        .ok Row.allAround ∧
      ∀ target, target ∈ Row.allAround ↔
        ∃ held, Row.acrossFaces.Spans Row.ringGrid Row.onLeft held ∧
          target = .part ⟨held.id, held.box, .zero⟩ := by
  have computed :
      targets Row.ringGrid Row.onLeft (Row.unit "relax" [⟨0⟩])
        (Row.acrossFaces.withDomainHalo .one) = .ok Row.allAround := rfl
  have fits : ∀ fault,
      targets Row.ringGrid Row.onLeft (Row.unit "relax" [⟨0⟩])
        (Row.acrossFaces.withDomainHalo .one) ≠ .error (.arithmetic fault) := by
    simp [computed]
  obtain ⟨same, spans⟩ := targets_withDomainHalo rfl (by decide) fits
  rw [computed] at same
  exact ⟨computed, same.symm, spans Row.allAround computed⟩

end MeshTasks
