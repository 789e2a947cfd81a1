import MeshTasks.Proofs.Distribution.Edges

/-!
# Places of send items

A part needs send items of regions that the whole has send items of. So a place
in the whole can be given to everything in the part, the send items of a region
among them, and no place is given twice.
-/

namespace MeshTasks

/-- Where the send items of some suppliers stand among those of others that hold
them; what comes behind them stays behind. -/
def sendAfter (whole part : List (Option RegionId)) (place : Nat) : Nat :=
  if bound : place < part.length then whole.idxOf part[place] else whole.length + place

private theorem sendAfter_idxOf
    {whole part : List (Option RegionId)} {region : Option RegionId}
    (member : region ∈ part) :
    sendAfter whole part (part.idxOf region) = whole.idxOf region := by
  have bound := List.idxOf_lt_length_of_mem member
  unfold sendAfter
  rw [dif_pos bound, List.getElem_idxOf bound]

private theorem sendAfter_injective
    {whole part : List (Option RegionId)}
    (distinct : part.Nodup)
    (within : part ⊆ whole) :
    Function.Injective (sendAfter whole part) := by
  intro first second same
  unfold sendAfter at same
  by_cases firstBound : first < part.length
  · have firstPlace := List.idxOf_lt_length_of_mem (within (List.getElem_mem firstBound))
    by_cases secondBound : second < part.length
    · rw [dif_pos firstBound, dif_pos secondBound] at same
      have sameRegion : part[first] = part[second] :=
        (List.idxOf_inj (within (List.getElem_mem firstBound))).mp same
      exact (distinct.getElem_inj_iff).mp sameRegion
    · rw [dif_pos firstBound, dif_neg secondBound] at same
      omega
  · by_cases secondBound : second < part.length
    · have secondPlace := List.idxOf_lt_length_of_mem (within (List.getElem_mem secondBound))
      rw [dif_neg firstBound, dif_pos secondBound] at same
      omega
    · rw [dif_neg firstBound, dif_neg secondBound] at same
      omega

section

variable {compiler : Compiler} {placement : Placement} {units : List WorkUnit}
  {whole part : List WorkItem}

private theorem narrows_placeAmong
    {after : Nat → Nat}
    (seated : Seated units)
    (regional : ∀ unit ∈ units, unit.Regional)
    (serial : compiler.placement.IsSerial compiler.grid)
    (wholeOk :
      instantiateAll compiler.grid compiler.settings compiler.placement units = .ok whole)
    (partOk : instantiateAll compiler.grid compiler.settings placement units = .ok part)
    (injective : Function.Injective after) :
    Narrows compiler placement units whole part
      (placeAmong ((TaskGraph.ofItems whole).itemsWhere placement.keeps) whole.length after) where
  seated := seated
  regional := regional
  whole_ok := wholeOk
  part_ok := partOk
  is_part :=
    isPart_placeAmong (filter_instantiateAll serial regional wholeOk partOk) whole.length after
  injective := by
    refine placeAmong_injective ((TaskGraph.ofItems whole).pairwise_itemsWhere placement.keeps)
      (fun id member => ?_) injective
    obtain ⟨_, itemAt, _⟩ := TaskGraph.mem_itemsWhere.mp member
    exact TaskGraph.item?_lt itemAt

/-- The regions that a part needs send items of need them in the whole. -/
theorem Narrows.suppliers_subset
    {place : Nat → Nat}
    (narrows : Narrows compiler placement units whole part place) :
    Resolver.suppliers ((compiler.under placement).agenda units part) ⊆
      Resolver.suppliers (compiler.agenda units whole) := by
  intro region member
  obtain ⟨request, requestMember, prior, regionEq⟩ :=
    Resolver.exists_request_of_mem_suppliers member
  have asks := narrows.asks_renamed requestMember
  have renamedPrior : ¬ (request.renamed place).isNewLike = true := prior
  have supplied := Resolver.mem_suppliers (Resolver.mem_agenda.mpr asks) renamedPrior
  rw [← regionEq]
  exact supplied

/-- The place in the whole of everything in a part. -/
def placeOfPart (compiler : Compiler) (placement : Placement) (units : List WorkUnit)
    (whole part : List WorkItem) : Nat → Nat :=
  placeAmong ((TaskGraph.ofItems whole).itemsWhere placement.keeps) whole.length
    (sendAfter (Resolver.suppliers (compiler.agenda units whole))
      (Resolver.suppliers ((compiler.under placement).agenda units part)))

theorem narrows_placeOfPart
    (seated : Seated units)
    (regional : ∀ unit ∈ units, unit.Regional)
    (serial : compiler.placement.IsSerial compiler.grid)
    (wholeOk :
      instantiateAll compiler.grid compiler.settings compiler.placement units = .ok whole)
    (partOk : instantiateAll compiler.grid compiler.settings placement units = .ok part) :
    Narrows compiler placement units whole part
      (placeOfPart compiler placement units whole part) := by
  -- The suppliers can be compared before the send items have places.
  have withoutSends :=
    narrows_placeAmong seated regional serial wholeOk partOk Function.injective_id
  exact narrows_placeAmong seated regional serial wholeOk partOk
    (sendAfter_injective (Resolver.nodup_suppliers _) withoutSends.suppliers_subset)

/-- The place in the whole of the send item of a region. -/
theorem placeOfPart_sendPlace
    {region : Option RegionId}
    (filtered : whole.filter placement.keeps = part.map WorkItem.serial)
    (member :
      region ∈ Resolver.suppliers ((compiler.under placement).agenda units part)) :
    placeOfPart compiler placement units whole part
        ((compiler.under placement).sendPlace units part region) =
      compiler.sendPlace units whole region := by
  have sendEq :
      (compiler.under placement).sendPlace units part region =
        ((TaskGraph.ofItems whole).itemsWhere placement.keeps).length +
          (Resolver.suppliers ((compiler.under placement).agenda units part)).idxOf region := by
    rw [length_itemsWhere filtered]
    rfl
  rw [sendEq, placeOfPart, placeAmong_add_length, sendAfter_idxOf member]
  rfl

end

end MeshTasks
