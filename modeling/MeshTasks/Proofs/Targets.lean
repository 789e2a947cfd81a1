import MeshTasks.Proofs.Joining

/-!
# Where targets lie

Joining the pieces of an access changes their boxes but not the regions they
come from. An access to the bound regions that does not reach out has exactly
these regions as its targets.
-/

namespace MeshTasks

private theorem mem_map_region_joinPieces {pieces : List Piece} {region : RegionId} :
    region ∈ (joinPieces pieces).map Piece.region ↔ region ∈ pieces.map Piece.region := by
  have ofPlaces :
      ∀ held : List Piece, held.map Piece.region = (held.map Piece.place).map Prod.fst := by
    intro held
    rw [List.map_map]
    rfl
  rw [ofPlaces, ofPlaces, List.mem_map, List.mem_map]
  simp only [mem_map_place_joinPieces]

/-- The targets of an access that is no reduction, on an item that has
regions. -/
theorem targets_of_placed
    {grid : Grid} {item : WorkItem} {unit : WorkUnit} {access : Access}
    (notReduction : access.label.isReduction = false)
    (placed : item.regions ≠ []) :
    targets grid item unit access =
      ((item.regions.filter access.admits).mapM (piecesFor grid unit access) >>= fun pieces =>
        pure ((joinPieces pieces.flatten).map .part)) := by
  have notEmpty : item.regions.isEmpty = false := by
    rw [Bool.eq_false_iff, ne_eq, List.isEmpty_iff]
    exact placed
  unfold targets
  rw [notReduction, if_neg Bool.false_ne_true, notEmpty, if_neg Bool.false_ne_true]

theorem targets_eq_ok_iff
    {grid : Grid} {item : WorkItem} {unit : WorkUnit} {access : Access} {found : List Target}
    (notReduction : access.label.isReduction = false)
    (placed : item.regions ≠ []) :
    targets grid item unit access = .ok found ↔
      ∃ pieces, (item.regions.filter access.admits).mapM (piecesFor grid unit access) = .ok pieces ∧
        found = (joinPieces pieces.flatten).map .part := by
  rw [targets_of_placed notReduction placed, bind_eq_ok_iff]
  simp [pure, Except.pure, eq_comm]

theorem targetsWithoutRegion_ne_arithmetic
    {grid : Grid} {unit : WorkUnit} {access : Access} (fault : Fault) :
    targetsWithoutRegion grid unit access ≠ .error (.arithmetic fault) := by
  intro failed
  unfold targetsWithoutRegion at failed
  split at failed
  · dsimp only at failed
    split at failed <;> cases failed
  · split at failed <;> cases failed

theorem mem_map_region?_targets
    {grid : Grid} {item : WorkItem} {unit : WorkUnit} {access : Access} {pieces : List (List Piece)}
    {region : RegionId}
    (piecesOk :
      (item.regions.filter access.admits).mapM (piecesFor grid unit access) = .ok pieces) :
    (∃ target ∈ (joinPieces pieces.flatten).map Target.part, target.region? = some region) ↔
      ∃ bound ∈ item.regions, access.admits bound = true ∧
        ∃ held, piecesFor grid unit access bound = .ok held ∧
          region ∈ held.map Piece.region := by
  have ofPieces :
      (∃ target ∈ (joinPieces pieces.flatten).map Target.part, target.region? = some region) ↔
        region ∈ pieces.flatten.map Piece.region := by
    rw [← mem_map_region_joinPieces]
    constructor
    · intro found
      obtain ⟨target, member, sameRegion⟩ := found
      obtain ⟨piece, pieceMember, rfl⟩ := List.mem_map.mp member
      exact List.mem_map.mpr ⟨piece, pieceMember, Option.some.inj sameRegion⟩
    · intro member
      obtain ⟨piece, pieceMember, rfl⟩ := List.mem_map.mp member
      exact ⟨.part piece, List.mem_map.mpr ⟨piece, pieceMember, rfl⟩, rfl⟩
  rw [ofPieces, List.map_flatten, List.mem_flatten]
  constructor
  · intro found
    obtain ⟨regions, regionsMember, inRegions⟩ := found
    obtain ⟨held, heldMember, rfl⟩ := List.mem_map.mp regionsMember
    obtain ⟨bound, boundMember, heldOk⟩ := exists_of_mem_mapM piecesOk heldMember
    obtain ⟨inItem, admitted⟩ := List.mem_filter.mp boundMember
    exact ⟨bound, inItem, admitted, held, heldOk, inRegions⟩
  · intro found
    obtain ⟨bound, inItem, admitted, held, heldOk, inHeld⟩ := found
    obtain ⟨result, resultMember, resultOk⟩ :=
      mapM_result_of_mem piecesOk (List.mem_filter.mpr ⟨inItem, admitted⟩)
    rw [heldOk] at resultOk
    cases resultOk
    exact ⟨held.map Piece.region, List.mem_map.mpr ⟨held, resultMember, rfl⟩, inHeld⟩

theorem Grid.id_of_region?_eq_some
    {grid : Grid} {id : RegionId} {region : Region}
    (found : grid.region? id = some region) :
    region.id = id := by
  have passes := List.find?_some found
  exact of_decide_eq_true passes

/-- An access to the bound regions that does not reach out needs just the bound
region. -/
theorem piecesFor_of_bare
    {grid : Grid} {unit : WorkUnit} {access : Access} {id : RegionId} {held : List Piece}
    (bound : access.domain = .regionBound)
    (bare : access.halo.isGhosted = false)
    (heldOk : piecesFor grid unit access id = .ok held) :
    held.map Piece.region = [id] := by
  unfold piecesFor at heldOk
  cases regionAt : grid.region? id with
  | none =>
      rw [regionAt] at heldOk
      cases heldOk
  | some region =>
      rw [regionAt] at heldOk
      dsimp only at heldOk
      unfold piecesOf at heldOk
      rw [bound, bare] at heldOk
      dsimp only [Domain.levelOffset] at heldOk
      cases levelAt : grid.levelAt? region.level 0 with
      | none =>
          rw [levelAt] at heldOk
          cases heldOk
      | some level =>
          rw [levelAt] at heldOk
          dsimp only at heldOk
          rw [if_neg nofun, if_pos ⟨rfl, Bool.false_ne_true⟩] at heldOk
          cases heldOk
          rw [List.map_cons, List.map_nil, Grid.id_of_region?_eq_some regionAt]

/-- An access to the bound regions that does not reach out has its own regions
as targets. -/
theorem exists_target_of_bare
    {grid : Grid} {item : WorkItem} {unit : WorkUnit} {access : Access} {found : List Target}
    {region : RegionId}
    (notReduction : access.label.isReduction = false)
    (bound : access.domain = .regionBound)
    (bare : access.halo.isGhosted = false)
    (foundOk : targets grid item unit access = .ok found)
    (member : region ∈ item.regions)
    (admitted : access.admits region = true) :
    ∃ target ∈ found, target.region? = some region := by
  have placed : item.regions ≠ [] := List.ne_nil_of_mem member
  obtain ⟨pieces, piecesOk, rfl⟩ := (targets_eq_ok_iff notReduction placed).mp foundOk
  obtain ⟨held, _, heldOk⟩ :=
    mapM_result_of_mem piecesOk (List.mem_filter.mpr ⟨member, admitted⟩)
  apply (mem_map_region?_targets piecesOk).mpr
  refine ⟨region, member, admitted, held, heldOk, ?_⟩
  rw [piecesFor_of_bare bound bare heldOk]
  exact List.mem_singleton_self region

end MeshTasks
