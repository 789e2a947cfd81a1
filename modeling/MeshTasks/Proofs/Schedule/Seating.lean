import Mathlib.Data.List.TakeDrop
import Mathlib.Data.List.TakeWhile
import MeshTasks.Proofs.Schedule.DepthFirst
import MeshTasks.Proofs.Selection
import MeshTasks.Schedule.Basic

/-!
# Sorted units stand after what they need

Seating a collective moves it back past units that do not need it, so an order
that meets all needs still does so. A sorted unit is a unit of the list with its
place written on it; whoever computes a label that it needs has an earlier
place.
-/

namespace MeshTasks

variable {units : List WorkUnit}

/-- Seating before the first use passes only positions without the need, and
stops at a position with it; if there is none, it passes nothing. -/
theorem seatBefore_eq (needsIt : Nat → Bool) (position : Nat) (later : List Nat) :
    ∃ passed rest,
      later = passed ++ rest ∧
        seatBefore needsIt position later = passed ++ position :: rest ∧
          (∀ other ∈ passed, needsIt other = false) ∧
            ((passed = [] ∧ ∀ other ∈ rest, needsIt other = false) ∨
              ∃ first after, rest = first :: after ∧ needsIt first = true) := by
  have split := List.span_eq_takeWhile_dropWhile (fun other => !needsIt other) later
  have whole :=
    List.takeWhile_append_dropWhile (p := fun other => !needsIt other) (l := later)
  unfold seatBefore
  rw [split]
  cases remaining : later.dropWhile fun other => !needsIt other with
  | nil =>
      refine ⟨[], later, rfl, rfl, fun _ member => absurd member List.not_mem_nil,
        Or.inl ⟨rfl, fun other member => ?_⟩⟩
      have passes := List.dropWhile_eq_nil_iff.mp remaining other member
      rwa [Bool.not_eq_true'] at passes
  | cons first rest =>
      have stopped := List.head?_dropWhile_not (fun other => !needsIt other) later
      rw [remaining] at whole stopped
      refine ⟨_, first :: rest, whole.symm, rfl, fun other member => ?_,
        Or.inr ⟨first, rest, rfl, by simpa using stopped⟩⟩
      have passes := List.mem_takeWhile_imp member
      rwa [Bool.not_eq_true'] at passes

theorem perm_reseat (needsIt : Nat → Bool) (position : Nat) (order : List Nat) :
    (reseat needsIt position order).Perm order := by
  induction order with
  | nil => exact List.Perm.refl []
  | cons head tail inductionHypothesis =>
      unfold reseat
      by_cases atHead : head = position
      · rw [if_pos atHead]
        obtain ⟨passed, rest, tailEq, seated, _⟩ := seatBefore_eq needsIt position tail
        rw [seated, tailEq, atHead]
        exact List.perm_middle
      · rw [if_neg atHead]
        exact inductionHypothesis.cons head

private theorem needsMet_reseat
    {needs : Nat → List Need} {needsIt : Nat → Bool} {position : Nat}
    (needsIt_eq : ∀ other, needsIt other = false →
      ∀ need ∈ needs other, need.producer ≠ position)
    {held order : List Nat}
    (met : NeedsMet needs held order) :
    NeedsMet needs held (reseat needsIt position order) := by
  induction order generalizing held with
  | nil => exact met
  | cons head tail inductionHypothesis =>
      unfold reseat
      by_cases atHead : head = position
      · rw [if_pos atHead]
        obtain ⟨passed, rest, tailEq, seated, unneeded, _⟩ := seatBefore_eq needsIt position tail
        rw [seated]
        rw [tailEq, atHead] at met
        exact met.move_back fun other member => needsIt_eq other (unneeded other member)
      · rw [if_neg atHead]
        exact ⟨met.1, inductionHypothesis met.2⟩

private theorem producer_ne_of_needsUnit_eq_false
    {consumer producer : Nat}
    (unneeded : needsUnit units consumer producer = false) :
    ∀ need ∈ needsOf units consumer, need.producer ≠ producer := by
  intro need member same
  have needed : needsUnit units consumer producer = true :=
    List.any_eq_true.mpr ⟨need, member, decide_eq_true same⟩
  rw [unneeded] at needed
  cases needed

theorem seatCollectives_spec
    {order : List Nat}
    (met : NeedsMet (needsOf units) [] order) :
    (seatCollectives units order).Perm order ∧
      NeedsMet (needsOf units) [] (seatCollectives units order) := by
  have folded :
      ∀ (collectives seated : List Nat),
        seated.Perm order →
        NeedsMet (needsOf units) [] seated →
          (collectives.foldl
              (fun seated position =>
                reseat (fun other => needsUnit units other position) position seated)
              seated).Perm order ∧
            NeedsMet (needsOf units) []
              (collectives.foldl
                (fun seated position =>
                  reseat (fun other => needsUnit units other position) position seated)
                seated) := by
    intro collectives
    induction collectives with
    | nil => exact fun seated permutation seatedMet => ⟨permutation, seatedMet⟩
    | cons position rest inductionHypothesis =>
        intro seated permutation seatedMet
        exact inductionHypothesis _
          ((perm_reseat _ position seated).trans permutation)
          (needsMet_reseat (fun _ => producer_ne_of_needsUnit_eq_false) seatedMet)
  exact folded _ order (List.Perm.refl order) met

/-- The schedule lists every position once, after everything it needs. -/
theorem schedule_spec
    {order : List Nat}
    (scheduled : schedule units = .ok order) :
    order.Perm (List.range units.length) ∧ NeedsMet (needsOf units) [] order := by
  unfold schedule at scheduled
  cases ordered : depthFirstOrder units with
  | error loop =>
      rw [ordered] at scheduled
      cases scheduled
  | ok depthFirst =>
      rw [ordered] at scheduled
      cases scheduled
      obtain ⟨permutation, met⟩ := depthFirstOrder_spec ordered
      obtain ⟨seatedPermutation, seatedMet⟩ := seatCollectives_spec met
      exact ⟨seatedPermutation.trans permutation, seatedMet⟩

private theorem getElem?_filterMap_of_isSome
    {α β : Type} {operation : α → Option β} {values : List α}
    (defined : ∀ value ∈ values, (operation value).isSome)
    (place : Nat) :
    (values.filterMap operation)[place]? = values[place]?.bind operation := by
  induction values generalizing place with
  | nil => rfl
  | cons head tail inductionHypothesis =>
      obtain ⟨result, headDefined⟩ :=
        Option.isSome_iff_exists.mp (defined head List.mem_cons_self)
      rw [List.filterMap_cons_some headDefined]
      cases place with
      | zero => exact headDefined.symm
      | succ place =>
          exact inductionHypothesis
            (fun value member => defined value (List.mem_cons_of_mem head member)) place

theorem getElem?_seatUnits
    {order : List Nat}
    (bounded : ∀ position ∈ order, position < units.length)
    (seat : Nat) :
    (seatUnits units order)[seat]? =
      order[seat]?.bind fun position =>
        units[position]?.map fun unit =>
          { unit with seat := some seat, phase := phaseOf? units order position } := by
  unfold seatUnits
  rw [getElem?_filterMap_of_isSome, List.getElem?_zipIdx, Nat.zero_add]
  · cases order[seat]? with
    | none => rfl
    | some position => rfl
  · rintro ⟨position, place⟩ member
    have inBounds := bounded position (List.fst_mem_of_mem_zipIdx member)
    rw [Option.isSome_map, List.getElem?_eq_getElem inBounds]
    rfl

/-- What does not look at seats and phases sees the units in the given order. -/
theorem map_seatUnits
    {β : Type} {view : WorkUnit → β}
    (blind : ∀ (unit : WorkUnit) (seat phase : Option Nat),
      view { unit with seat := seat, phase := phase } = view unit)
    (order : List Nat) :
    (seatUnits units order).map view =
      order.filterMap fun position => units[position]?.map view := by
  have seen : ∀ pair : Nat × Nat,
      Option.map view (units[pair.1]?.map fun unit =>
        { unit with seat := some pair.2, phase := phaseOf? units order pair.1 }) =
          units[pair.1]?.map view := by
    intro pair
    rw [Option.map_map]
    exact Option.map_congr fun unit _ => blind unit _ _
  calc
    (seatUnits units order).map view =
        order.zipIdx.filterMap fun pair => units[pair.1]?.map view := by
      rw [seatUnits, List.map_filterMap]
      exact congrArg (fun operation => order.zipIdx.filterMap operation) (funext seen)
    _ = (order.zipIdx.map Prod.fst).filterMap fun position => units[position]?.map view := by
      rw [List.filterMap_map]
      rfl
    _ = order.filterMap fun position => units[position]?.map view := by
      rw [List.zipIdx_map_fst]

/-- What does not look at seats and phases sees the same units after sorting, in
some order. -/
theorem perm_map_sortUnits
    {β : Type} {view : WorkUnit → β} {sorted : List WorkUnit}
    (blind : ∀ (unit : WorkUnit) (seat phase : Option Nat),
      view { unit with seat := seat, phase := phase } = view unit)
    (sortedOk : sortUnits units = .ok sorted) :
    (sorted.map view).Perm (units.map view) := by
  obtain ⟨order, scheduled, seatedEq⟩ := bind_eq_ok_iff.mp sortedOk
  cases seatedEq
  have inPlace :
      (List.range units.length).filterMap (fun position => units[position]?.map view) =
        units.map view := by
    have selected := congrArg (List.filterMap (Option.map view)) (map_getElem?_range units)
    simpa only [List.filterMap_map, Function.comp_def, Option.map_some, List.filterMap_eq_map']
      using selected
  rw [map_seatUnits blind, ← inPlace]
  exact (schedule_spec scheduled).1.filterMap _

/-- What sorting makes of a list of units. -/
structure Sorted (units sorted : List WorkUnit) : Prop where
  /-- A sorted unit is a unit of the list with its seat and a phase. -/
  seated : ∀ {seat unit}, sorted[seat]? = some unit →
    ∃ original ∈ units, ∃ phase, unit = { original with seat := some seat, phase := phase }
  /-- Whoever computes a needed label has an earlier seat. -/
  computed_before : ∀ {consumer producer : Nat} {taker maker : WorkUnit} {label : Label},
    sorted[consumer]? = some taker →
    sorted[producer]? = some maker →
    label ∈ taker.neededLabels →
    maker.computesLabel label = true →
      producer < consumer

theorem sortUnits_sorted
    {sorted : List WorkUnit}
    (sortedOk : sortUnits units = .ok sorted) :
    Sorted units sorted := by
  obtain ⟨order, scheduled, seatedEq⟩ := bind_eq_ok_iff.mp sortedOk
  cases seatedEq
  obtain ⟨permutation, met⟩ := schedule_spec scheduled
  have bounded : ∀ position ∈ order, position < units.length := by
    intro position member
    exact List.mem_range.mp (permutation.mem_iff.mp member)
  have origin :
      ∀ {seat unit}, (seatUnits units order)[seat]? = some unit →
        ∃ (position : Nat) (original : WorkUnit),
          order[seat]? = some position ∧ units[position]? = some original ∧
            unit = { original with
              seat := some seat, phase := phaseOf? units order position } := by
    intro seat unit unitAt
    rw [getElem?_seatUnits bounded, Option.bind_eq_some_iff] at unitAt
    obtain ⟨position, positionAt, mapped⟩ := unitAt
    obtain ⟨original, originalAt, rfl⟩ := Option.map_eq_some_iff.mp mapped
    exact ⟨position, original, positionAt, originalAt, rfl⟩
  refine ⟨fun unitAt => ?_, fun takerAt makerAt needed computes => ?_⟩
  · obtain ⟨position, original, _, originalAt, rfl⟩ := origin unitAt
    exact ⟨original, List.mem_of_getElem? originalAt, _, rfl⟩
  · rename_i consumer producer taker maker label
    obtain ⟨takerPosition, taker, takerSeat, takerOriginal, rfl⟩ := origin takerAt
    obtain ⟨makerPosition, maker, makerSeat, makerOriginal, rfl⟩ := origin makerAt
    have computer : makerPosition ∈ computersOf units label := by
      refine List.mem_filter.mpr ⟨List.mem_range.mpr ?_, ?_⟩
      · exact bounded makerPosition (List.mem_of_getElem? makerSeat)
      · rw [makerOriginal]
        exact computes
    have need : ⟨makerPosition, label⟩ ∈ needsOf units takerPosition := by
      unfold needsOf
      rw [takerOriginal]
      exact List.mem_flatMap.mpr ⟨label, needed, List.mem_map.mpr ⟨_, computer, rfl⟩⟩
    -- The order splits at the consumer, and the producer stands in the first part.
    obtain ⟨consumerBound, atConsumer⟩ := List.getElem?_eq_some_iff.mp takerSeat
    have whole : order = order.take consumer ++ takerPosition :: order.drop (consumer + 1) := by
      rw [← atConsumer, List.getElem_cons_drop, List.take_append_drop]
    have before : makerPosition ∈ order.take consumer :=
      (whole ▸ met : NeedsMet (needsOf units) [] _).producer_mem_before need
    obtain ⟨place, placeBound, placeEq⟩ := List.mem_take_iff_getElem.mp before
    obtain ⟨producerBound, atProducer⟩ := List.getElem?_eq_some_iff.mp makerSeat
    have nodup : order.Nodup := permutation.nodup_iff.mpr List.nodup_range
    have samePlace : place = producer :=
      (List.Nodup.getElem_inj_iff nodup).mp (placeEq.trans atProducer.symm)
    omega

end MeshTasks
