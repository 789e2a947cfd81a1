import MeshTasks.Proofs.Schedule.Order

/-!
# Units that are in order already

Visiting positions in an order that meets their needs appends them as they come.
So the depth-first order of units that stand behind all that they depend on is
the order in which they stand. Without synchronizing units nothing is seated
elsewhere afterwards: sorting then keeps units that are in order, and as it puts
units in order, sorting them again changes nothing.
-/

namespace MeshTasks

section

variable {needs : Nat → List Need} {fuel : Nat}

/-- A position that finds all it needs in the order is appended at once. -/
private theorem visit_of_met
    {trail : List Hop} {position : Nat} {order : List Nat}
    (met : ∀ need ∈ needs position, need.producer ∈ order) :
    visit needs (fuel + 1) trail position order = .ok (order ++ [position]) := by
  unfold visit
  rw [foldlM_eq_self fun need needed => if_pos (met need needed)]
  rfl

/-- Positions that come in an order that meets their needs are appended in this
order. -/
private theorem visitAll_of_needsMet
    {positions order : List Nat}
    (met : NeedsMet needs order positions)
    (distinct : positions.Nodup)
    (fresh : ∀ position ∈ positions, position ∉ order) :
    visitAll needs (fuel + 1) positions order = .ok (order ++ positions) := by
  unfold visitAll
  induction positions generalizing order with
  | nil => rw [List.append_nil]; rfl
  | cons head tail inductionHypothesis =>
      obtain ⟨headMet, tailMet⟩ := met
      obtain ⟨headOnce, tailDistinct⟩ := List.nodup_cons.mp distinct
      have stepped :
          (if head ∈ order then .ok order else visit needs (fuel + 1) [] head order) =
            Except.ok (order ++ [head]) := by
        rw [if_neg (fresh head List.mem_cons_self), visit_of_met headMet]
      have tailMetHere : NeedsMet needs (order ++ [head]) tail := by
        refine tailMet.mono fun position member => ?_
        rw [List.mem_append, List.mem_singleton]
        exact (List.mem_cons.mp member).symm
      have tailFresh : ∀ position ∈ tail, position ∉ order ++ [head] := by
        intro position inTail inOrder
        rcases List.mem_append.mp inOrder with before | atEnd
        · exact fresh position (List.mem_cons_of_mem head inTail) before
        · exact headOnce (List.mem_singleton.mp atEnd ▸ inTail)
      rw [List.foldlM_cons, stepped, List.append_cons order head tail]
      exact inductionHypothesis tailMetHere tailDistinct tailFresh

private theorem needsMet_range
    {count : Nat}
    (earlier : ∀ position < count, ∀ need ∈ needs position, need.producer < position) :
    NeedsMet needs [] (List.range count) := by
  induction count with
  | zero => trivial
  | succ count inductionHypothesis =>
      have front := inductionHypothesis fun position bound =>
        earlier position (Nat.lt_succ_of_lt bound)
      rw [List.range_succ]
      exact front.concat fun need needed =>
        List.mem_range.mpr (earlier count (Nat.lt_succ_self count) need needed)

end

section

variable {units : List WorkUnit}

/-- Every unit stands behind all that it depends on. -/
def InOrder (units : List WorkUnit) : Prop :=
  ∀ consumer producer, DependsOn units consumer producer → producer < consumer

private theorem inOrder_iff :
    InOrder units ↔
      ∀ position < units.length, ∀ need ∈ needsOf units position, need.producer < position := by
  constructor
  · intro inOrder position _ need needed
    exact inOrder position need.producer ⟨need.label, mem_needsOf_iff.mp needed⟩
  · rintro earlier consumer producer ⟨label, real⟩
    exact earlier consumer (lt_length_of_dependsOn ⟨label, real⟩) ⟨producer, label⟩
      (mem_needsOf_iff.mpr real)

/-- The depth-first order of units that are in order is the order in which they
stand. -/
theorem InOrder.depthFirstOrder_eq
    (inOrder : InOrder units) :
    depthFirstOrder units = .ok (List.range units.length) := by
  have met : NeedsMet (needsOf units) [] (List.range units.length) :=
    needsMet_range (inOrder_iff.mp inOrder)
  unfold depthFirstOrder
  cases length : units.length with
  | zero => rfl
  | succ count =>
      rw [length] at met
      exact visitAll_of_needsMet met List.nodup_range fun _ _ => List.not_mem_nil

/-- The units with their places as seats and without phases. -/
def seatedAsTheyStand (units : List WorkUnit) : List WorkUnit :=
  units.mapIdx fun seat unit => { unit with seat := some seat, phase := none }

variable (plain : ∀ unit ∈ units, unit.isSynchronizing = false)

include plain

private theorem isCollective_eq_false (position : Nat) : isCollective units position = false := by
  unfold isCollective
  cases unitAt : units[position]? with
  | none => rfl
  | some unit => exact plain unit (List.mem_of_getElem? unitAt)

private theorem seatCollectives_eq_self (order : List Nat) :
    seatCollectives units order = order := by
  have nothing : order.filter (isCollective units) = [] := by
    rw [List.filter_eq_nil_iff]
    intro position _
    rw [isCollective_eq_false plain]
    exact Bool.false_ne_true
  rw [seatCollectives, nothing, List.foldl_nil]

private theorem seatUnits_range :
    seatUnits units (List.range units.length) = seatedAsTheyStand units := by
  have bounded : ∀ position ∈ List.range units.length, position < units.length :=
    fun _ => List.mem_range.mp
  apply List.ext_getElem?
  intro seat
  rw [getElem?_seatUnits bounded, seatedAsTheyStand, List.getElem?_mapIdx]
  by_cases bound : seat < units.length
  · rw [List.getElem?_range bound, Option.bind_some,
      phaseOf?_eq_none (isCollective_eq_false plain seat)]
  · rw [List.getElem?_eq_none (Nat.le_of_not_lt bound), List.getElem?_eq_none]
    · rfl
    · rw [List.length_range]
      exact Nat.le_of_not_lt bound

theorem sortUnits_of_inOrder
    (inOrder : InOrder units) :
    sortUnits units = .ok (seatedAsTheyStand units) := by
  have scheduled : schedule units = .ok (List.range units.length) := by
    rw [schedule, inOrder.depthFirstOrder_eq]
    exact congrArg Except.ok (seatCollectives_eq_self plain _)
  rw [sortUnits, scheduled, ← seatUnits_range plain]
  rfl

omit plain in
private theorem Sorted.inOrder {sorted : List WorkUnit} (isSorted : Sorted units sorted) :
    InOrder sorted := by
  rintro consumer producer ⟨label, ⟨taker, access, takerAt, consumed, newLike, rfl⟩,
    maker, made, makerAt, computed, sameLabel⟩
  refine isSorted.computed_before takerAt makerAt
    (mem_neededLabels.mpr ⟨access, consumed, newLike, rfl⟩) ?_
  exact List.any_eq_true.mpr ⟨made, computed, decide_eq_true sameLabel⟩

/-- Units that were sorted have their places as seats and, if none is a
synchronizing one, no phases. -/
theorem seatedAsTheyStand_of_sortUnits
    {sorted : List WorkUnit}
    (sortedOk : sortUnits units = .ok sorted) :
    seatedAsTheyStand sorted = sorted := by
  obtain ⟨order, scheduled, seated⟩ := bind_eq_ok_iff.mp sortedOk
  cases seated
  have bounded : ∀ position ∈ order, position < units.length :=
    fun _ => (mem_of_schedule scheduled).mp
  apply List.ext_getElem?
  intro seat
  rw [seatedAsTheyStand, List.getElem?_mapIdx, getElem?_seatUnits bounded]
  cases order[seat]? with
  | none => rfl
  | some position =>
      rw [Option.bind_some, Option.map_map, phaseOf?_eq_none (isCollective_eq_false plain position)]
      rfl

end

/-- Without synchronizing units, sorting keeps units that stand behind all that
they depend on as they stand, and sorting units that were sorted changes
nothing. -/
theorem sortUnits_stable
    {units : List WorkUnit}
    (plain : ∀ unit ∈ units, unit.isSynchronizing = false) :
    (InOrder units → sortUnits units = .ok (seatedAsTheyStand units)) ∧
      ∀ sorted, sortUnits units = .ok sorted → sortUnits sorted = .ok sorted := by
  refine ⟨sortUnits_of_inOrder plain, fun sorted sortedOk => ?_⟩
  have isSorted := sortUnits_sorted sortedOk
  have sortedPlain : ∀ unit ∈ sorted, unit.isSynchronizing = false := by
    intro unit member
    obtain ⟨seat, unitAt⟩ := List.mem_iff_getElem?.mp member
    obtain ⟨original, originalMember, _, rfl⟩ := isSorted.seated unitAt
    exact plain original originalMember
  rw [sortUnits_of_inOrder sortedPlain isSorted.inOrder,
    seatedAsTheyStand_of_sortUnits plain sortedOk]

/-! ## A report before and behind what it reads -/

namespace Gauge

def measure : WorkUnit := (WorkUnit.named "measure" .perRegion).computing (.of Step.speed)

def log : WorkUnit := WorkUnit.named "log" .outputOnce

def report : WorkUnit := (WorkUnit.named "report" .perRegion).requiring (.of Step.speed)

def forwards : List WorkUnit := [measure, log, report]

def backwards : List WorkUnit := [report, log, measure]

end Gauge

/-- In order, the report stays apart from what it reads; declared before that,
it is sorted right behind it and stays there. -/
theorem sortUnits_stable_gauge :
    InOrder Gauge.forwards ∧
      sortUnits Gauge.forwards = .ok (seatedAsTheyStand Gauge.forwards) ∧
        ∃ sorted, sortUnits Gauge.backwards = .ok sorted ∧
          sorted.map WorkUnit.name = ["measure", "report", "log"] ∧
            sortUnits sorted = .ok sorted := by
  have inOrder : InOrder Gauge.forwards := inOrder_iff.mpr (by decide)
  have kept : sortUnits Gauge.forwards = .ok (seatedAsTheyStand Gauge.forwards) :=
    (sortUnits_stable (by decide)).1 inOrder
  have computed : sortUnits Gauge.backwards =
      .ok (seatedAsTheyStand [Gauge.measure, Gauge.report, Gauge.log]) := by decide
  have again := (sortUnits_stable (by decide)).2 _ computed
  exact ⟨inOrder, kept, _, computed, by decide, again⟩

end MeshTasks
