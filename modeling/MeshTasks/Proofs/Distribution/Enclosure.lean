import MeshTasks.Proofs.Distribution.Sends

/-!
# What a halo encloses

Accesses that reach no further than the halo of a placement stay in its
neighborhood, from a local region outwards and from elsewhere onto a local
region. So the placement encloses its local regions, and all requests that
concern it are served as they are in the serial placement.
-/

namespace MeshTasks

/-- A unit that is spread over regions and reads no further than a width around
them, and modifies without reaching out. -/
structure WorkUnit.StaysWithin (unit : WorkUnit) (width : Coord) : Prop where
  regional : unit.Regional
  declared : unit.Declared
  bounded : ∀ access ∈ unit.consumed, access.halo.shape ≠ .domainWide
  narrow : ∀ access ∈ unit.consumed, access.halo.isGhosted = true →
    access.halo.width.val ≤ width.val

/-- Sorting a unit does not change how far it reaches. -/
theorem WorkUnit.StaysWithin.seated
    {unit : WorkUnit} {width : Coord}
    (stays : unit.StaysWithin width)
    (seat phase : Option Nat) :
    { unit with seat := seat, phase := phase }.StaysWithin width where
  regional := ⟨stays.regional.per_region, stays.regional.on_regions, stays.regional.with_materials,
    stays.regional.bound, stays.regional.not_reduction, stays.regional.modifies_bare⟩
  declared := ⟨stays.declared.requires_mode, stays.declared.modifies_mode,
    stays.declared.computes_mode, stays.declared.computes_new⟩
  bounded := stays.bounded
  narrow := stays.narrow

namespace Narrows

variable {compiler : Compiler} {placement : Placement} {units : List WorkUnit}
  {whole part : List WorkItem} {place : Nat → Nat}

/-- A request is for a piece of what an access needs for the region of its
item. -/
private theorem exists_pieces_of_asks
    (narrows : Narrows compiler placement units whole part place)
    {request : Request}
    (asks : (compiler.resolver units whole).Asks (.ofItems whole) request) :
    ∃ bound region held, request.item.regions = [bound] ∧
      request.target.region? = some region ∧
        piecesFor compiler.grid request.unit request.access bound = .ok held ∧
          region ∈ held.map Piece.region := by
  obtain ⟨_, _, bound, _, regionsEq⟩ := narrows.exists_region asks.item_at
  obtain ⟨_, _, unitAt⟩ := Option.bind_eq_some_iff.mp asks.unit_of
  have regional := narrows.regional request.unit (List.mem_of_getElem? unitAt)
  have notReduction := regional.not_reduction request.access (List.mem_append_left _ asks.consumed)
  have placed : request.item.regions ≠ [] := by
    rw [regionsEq]
    exact List.cons_ne_nil _ _
  have member := asks.target_mem
  have sameGrid : (compiler.resolver units whole).grid = compiler.grid := rfl
  unfold Resolver.targetsFound at member
  rw [sameGrid] at member
  cases foundOk : targets compiler.grid request.item request.unit request.access with
  | error error =>
      rw [foundOk] at member
      cases member
  | ok found =>
      rw [foundOk] at member
      obtain ⟨pieces, piecesOk, foundEq⟩ := (targets_eq_ok_iff notReduction placed).mp foundOk
      dsimp only at member
      rw [foundEq] at member
      obtain ⟨piece, _, targetEq⟩ := List.mem_map.mp member
      have regionEq : request.target.region? = some piece.region := by
        rw [← targetEq]
        rfl
      obtain ⟨other, inItem, _, held, heldOk, inHeld⟩ :=
        (mem_map_region?_targets piecesOk).mp ⟨request.target, member, regionEq⟩
      rw [regionsEq, List.mem_singleton] at inItem
      rw [inItem] at heldOk
      exact ⟨bound, piece.region, held, regionsEq, regionEq, heldOk, inHeld⟩

/-- A request reaches from the region of its item to that of its target. -/
theorem exists_reach_of_asks
    {width : Coord}
    (narrows : Narrows compiler placement units whole part place)
    (stay : ∀ unit ∈ units, unit.StaysWithin width)
    (indexed : compiler.grid.Indexed)
    {request : Request}
    (asks : (compiler.resolver units whole).Asks (.ofItems whole) request) :
    ∃ bound region, request.item.regions = [bound] ∧ request.target.region? = some region ∧
      (compiler.grid.region? bound).isSome = true ∧
        (compiler.grid.region? region).isSome = true ∧
          compiler.grid.Reaches width bound region := by
  obtain ⟨bound, region, held, regionsEq, regionEq, heldOk, member⟩ :=
    narrows.exists_pieces_of_asks asks
  obtain ⟨_, _, unitAt⟩ := Option.bind_eq_some_iff.mp asks.unit_of
  have stays := stay request.unit (List.mem_of_getElem? unitAt)
  have toBound := stays.regional.bound request.access (List.mem_append_left _ asks.consumed)
  have reaches :=
    reaches_of_mem_pieces indexed toBound (stays.bounded request.access asks.consumed)
      (stays.narrow request.access asks.consumed) heldOk member
  have boundPresent : (compiler.grid.region? bound).isSome = true := by
    cases boundAt : compiler.grid.region? bound with
    | some found => rfl
    | none =>
        unfold piecesFor at heldOk
        rw [boundAt] at heldOk
        cases heldOk
  refine ⟨bound, region, regionsEq, regionEq, boundPresent, ?_, reaches⟩
  rcases reaches with same | ⟨_, other, _, _, otherAt, _⟩
  · exact same ▸ boundPresent
  · rw [otherAt]
    rfl

/-- A placement whose halo is wide enough encloses the regions of its
process. -/
theorem encloses_of_coversHalo
    {process : ProcessId} {owners : OwnerTable} {width : Coord}
    (narrows : Narrows compiler placement units whole part place)
    (stay : ∀ unit ∈ units, unit.StaysWithin width)
    (indexed : compiler.grid.Indexed)
    (covers : placement.CoversHalo compiler.grid process owners width) :
    Encloses compiler placement units whole fun region =>
      owners.lookup region = some process where
  locals_near := by
    intro region present owned
    exact covers.near region region present owned (Or.inl rfl)
  targets_seen := by
    intro request asks onLocal
    obtain ⟨bound, region, regionsEq, regionEq, present, _, reaches⟩ :=
      narrows.exists_reach_of_asks stay indexed asks
    obtain ⟨other, member, owned⟩ := onLocal
    rw [regionsEq, List.mem_singleton] at member
    rw [member] at owned
    have isNear := covers.near bound region present owned reaches
    have keyRegion : request.key.region = some region := regionEq
    unfold Placement.sees
    rw [keyRegion]
    exact isNear
  askers_kept := by
    intro request target asks targetEq owned
    obtain ⟨bound, region, regionsEq, regionEq, _, present, reaches⟩ :=
      narrows.exists_reach_of_asks stay indexed asks
    have sameRegion : region = target := Option.some.inj (regionEq.symm.trans targetEq)
    rw [sameRegion] at present reaches
    -- The halo is drawn around the target here, not around the item that asks.
    have isNear := covers.near target bound present owned reaches.symm
    unfold Placement.keeps
    rw [regionsEq, List.all_cons, List.all_nil, Bool.and_true]
    exact isNear
  modified_own := by
    intro request asks modifies
    obtain ⟨bound, region, held, regionsEq, regionEq, heldOk, member⟩ :=
      narrows.exists_pieces_of_asks asks
    obtain ⟨_, _, unitAt⟩ := Option.bind_eq_some_iff.mp asks.unit_of
    have stays := stay request.unit (List.mem_of_getElem? unitAt)
    have toBound := stays.regional.bound request.access (List.mem_append_left _ asks.consumed)
    have isModification : request.access ∈ request.unit.modifies := by
      rcases List.mem_append.mp asks.consumed with required | modified
      · have mode := stays.declared.requires_mode request.access required
        rw [modifies] at mode
        cases mode
      · exact modified
    have bare := stays.regional.modifies_bare request.access isModification
    rw [piecesFor_of_bare toBound bare heldOk, List.mem_singleton] at member
    exact ⟨bound, regionsEq, member ▸ regionEq⟩

end Narrows

end MeshTasks
