import MeshTasks.Proofs.FirstExecution

/-!
# The coarsest active level

A unit with one item for each region is active on the levels of the regions that
it is bound to, and a unit that runs once on each process is active on all
levels. Of the levels of a unit only the one of its first region is looked at,
and the first region is the one with the lowest number. So the coarsest active
level is found exactly where some region on it comes first in its unit;
otherwise a finer level is taken for it.
-/

namespace MeshTasks

/-- A unit with one item for each region is bound to a region on a level. -/
def BindsOn (grid : Grid) (units : List WorkUnit) (level : Nat) : Prop :=
  ∃ unit ∈ units, unit.policy = .perRegion ∧
    ∃ id ∈ unit.boundRegions, ∃ region, grid.region? id = some region ∧ region.level = level

/-- The first region of a unit with one item for each region is on a level. -/
def LeadsOn (grid : Grid) (units : List WorkUnit) (level : Nat) : Prop :=
  ∃ unit ∈ units, unit.policy = .perRegion ∧
    ∃ id, unit.boundRegions.head? = some id ∧
      ∃ region, grid.region? id = some region ∧ region.level = level

/-- The least number with a property, if there is any. -/
def IsLeastWith (holds : Nat → Prop) : Option Nat → Prop
  | none => ∀ level, ¬ holds level
  | some least => holds least ∧ ∀ level, holds level → least ≤ level

/-- The coarsest level of all if some unit spans them, otherwise the least level
with a property. -/
structure IsCoarsest (units : List WorkUnit) (active : Nat → Prop) (coarsest : Option Nat) :
    Prop where
  spanning : (∃ unit ∈ units, unit.policy = .oncePerProcess) → coarsest = some 0
  least : (∀ unit ∈ units, unit.policy ≠ .oncePerProcess) → IsLeastWith active coarsest

section

variable {grid : Grid} {units : List WorkUnit}

private theorem LeadsOn.bindsOn {level : Nat} (leads : LeadsOn grid units level) :
    BindsOn grid units level := by
  obtain ⟨unit, member, policy, id, first, onLevel⟩ := leads
  exact ⟨unit, member, policy, id, List.mem_of_head? first, onLevel⟩

/-- A unit without a pinned level is on the level of its first region. -/
theorem WorkUnit.level?_eq_some_iff
    {unit : WorkUnit} {level : Nat}
    (unpinned : unit.pinned = none) :
    unit.level? grid = some level ↔
      ∃ id, unit.boundRegions.head? = some id ∧
        ∃ region, grid.region? id = some region ∧ region.level = level := by
  simp [level?, unpinned, Option.bind_eq_some_iff]

private theorem mem_activeLevels_iff
    (unpinned : ∀ unit ∈ units, unit.pinned = none)
    (level : Nat) :
    level ∈ units.filterMap (WorkUnit.activeLevel? grid) ↔
      (level = 0 ∧ ∃ unit ∈ units, unit.policy = .oncePerProcess) ∨
        LeadsOn grid units level := by
  rw [List.mem_filterMap]
  constructor
  · rintro ⟨unit, member, active⟩
    unfold WorkUnit.activeLevel? at active
    cases policy : unit.policy with
    | perRegion =>
        rw [policy] at active
        have first := (WorkUnit.level?_eq_some_iff (unpinned unit member)).mp active
        exact Or.inr ⟨unit, member, policy, first⟩
    | oncePerProcess =>
        rw [policy] at active
        cases active
        exact Or.inl ⟨rfl, unit, member, policy⟩
    | outputOnce => simp [policy] at active
    | synchronizing => simp [policy] at active
  · rintro (⟨rfl, unit, member, policy⟩ | ⟨unit, member, policy, first⟩)
    · exact ⟨unit, member, by simp [WorkUnit.activeLevel?, policy]⟩
    · refine ⟨unit, member, ?_⟩
      rw [WorkUnit.activeLevel?, policy]
      exact (WorkUnit.level?_eq_some_iff (unpinned unit member)).mpr first

private theorem isLeastWith_min?
    {levels : List Nat} {holds : Nat → Prop}
    (listed : ∀ level, level ∈ levels ↔ holds level) :
    IsLeastWith holds levels.min? := by
  cases found : levels.min? with
  | none =>
      rw [List.min?_eq_none_iff] at found
      intro level active
      rw [← listed, found] at active
      cases active
  | some least =>
      rw [List.min?_eq_some_iff] at found
      refine ⟨(listed least).mp found.1, fun level active => ?_⟩
      exact found.2 level ((listed level).mpr active)

private theorem isCoarsest_leadsOn (unpinned : ∀ unit ∈ units, unit.pinned = none) :
    IsCoarsest units (LeadsOn grid units) (coarsestActiveLevel? grid units) where
  spanning := by
    intro spans
    have listed : 0 ∈ units.filterMap (WorkUnit.activeLevel? grid) :=
      (mem_activeLevels_iff unpinned 0).mpr (Or.inl ⟨rfl, spans⟩)
    exact List.min?_eq_some_iff.mpr ⟨listed, fun level _ => Nat.zero_le level⟩
  least := by
    intro noneSpans
    apply isLeastWith_min?
    intro level
    rw [mem_activeLevels_iff unpinned level]
    refine or_iff_right ?_
    rintro ⟨_, unit, member, policy⟩
    exact noneSpans unit member policy

/-- Where a region is bound, some region is the first of its unit. -/
private theorem exists_leadsOn
    (onGrid : ∀ unit ∈ units, ∀ id ∈ unit.boundRegions, (grid.region? id).isSome = true)
    {level : Nat}
    (binds : BindsOn grid units level) :
    ∃ first, LeadsOn grid units first := by
  obtain ⟨unit, member, policy, id, bound, _⟩ := binds
  obtain ⟨first, firstEq⟩ :=
    Option.isSome_iff_exists.mp (List.isSome_head?.mpr (List.ne_nil_of_mem bound))
  obtain ⟨region, regionAt⟩ :=
    Option.isSome_iff_exists.mp (onGrid unit member first (List.mem_of_head? firstEq))
  exact ⟨region.level, unit, member, policy, first, firstEq, region, regionAt, rfl⟩

/-- The least of some numbers is the least of more numbers exactly if none of
these is below all of the former. -/
private theorem isLeastWith_iff_of_imp
    {narrow wide : Nat → Prop} {least : Option Nat}
    (isLeast : IsLeastWith narrow least)
    (implies : ∀ level, narrow level → wide level) :
    IsLeastWith wide least ↔ ∀ level, wide level → ∃ first ≤ level, narrow first := by
  cases least with
  | none =>
      refine forall_congr' fun level => ⟨fun fails holds => absurd holds fails, ?_⟩
      intro below holds
      obtain ⟨first, _, narrowFirst⟩ := below holds
      exact isLeast first narrowFirst
  | some least =>
      constructor
      · exact fun wideLeast level holds => ⟨least, wideLeast.2 level holds, isLeast.1⟩
      · intro below
        refine ⟨implies least isLeast.1, fun level holds => ?_⟩
        obtain ⟨first, atMost, narrowFirst⟩ := below level holds
        exact Nat.le_trans (isLeast.2 first narrowFirst) atMost

/-- Of units without pinned levels, on regions of the grid, the coarsest active
level is the coarsest one that the first region of some unit is on, and there is
none only where nothing is active. It is the coarsest level that any region is
on exactly if some unit spans all levels, or no bound region is coarser than all
that come first. -/
theorem coarsest_of_leading_regions
    (unpinned : ∀ unit ∈ units, unit.pinned = none)
    (onGrid : ∀ unit ∈ units, ∀ id ∈ unit.boundRegions, (grid.region? id).isSome = true) :
    IsCoarsest units (LeadsOn grid units) (coarsestActiveLevel? grid units) ∧
      (coarsestActiveLevel? grid units = none ↔
        (∀ unit ∈ units, unit.policy ≠ .oncePerProcess) ∧
          ∀ level, ¬ BindsOn grid units level) ∧
      (IsCoarsest units (BindsOn grid units) (coarsestActiveLevel? grid units) ↔
        (∃ unit ∈ units, unit.policy = .oncePerProcess) ∨
          ∀ level, BindsOn grid units level → ∃ first ≤ level, LeadsOn grid units first) := by
  have leading : IsCoarsest units (LeadsOn grid units) (coarsestActiveLevel? grid units) :=
    isCoarsest_leadsOn unpinned
  by_cases spans : ∃ unit ∈ units, unit.policy = .oncePerProcess
  · have isZero := leading.spanning spans
    obtain ⟨unit, member, policy⟩ := spans
    refine ⟨leading, ?_, ?_⟩
    · rw [isZero]
      exact ⟨nofun, fun idle => absurd policy (idle.1 unit member)⟩
    · refine ⟨fun _ => Or.inl ⟨unit, member, policy⟩, fun _ => ⟨leading.spanning, ?_⟩⟩
      exact fun noneSpans => absurd policy (noneSpans unit member)
  · have noneSpans : ∀ unit ∈ units, unit.policy ≠ .oncePerProcess :=
      fun unit member policy => spans ⟨unit, member, policy⟩
    have least := leading.least noneSpans
    refine ⟨leading, ?_, ?_⟩
    · constructor
      · intro isNone
        rw [isNone] at least
        refine ⟨noneSpans, fun level binds => ?_⟩
        obtain ⟨first, leads⟩ := exists_leadsOn onGrid binds
        exact least first leads
      · intro idle
        cases found : coarsestActiveLevel? grid units with
        | none => rfl
        | some level =>
            rw [found] at least
            exact absurd least.1.bindsOn (idle.2 level)
    · rw [or_iff_right spans, ← isLeastWith_iff_of_imp least fun _ => LeadsOn.bindsOn]
      exact ⟨fun whole => whole.least noneSpans,
        fun whole => ⟨fun spanning => absurd spanning spans, fun _ => whole⟩⟩

end

/-! ## A finer region with a lower number -/

namespace Stack

/-- Two levels whose finer region has the lower number. -/
def finestFirst : Grid where
  levels := [
    { index := 0, ratio := .one, periodic := .none
      regions := [⟨⟨1⟩, 0, ⟨.zero, .splat Row.four⟩⟩]
      domain := ⟨.zero, .splat Row.four⟩
      widest := Row.four
      coherent := by constructor <;> decide },
    { index := 1, ratio := .splat Row.two, periodic := .none
      regions := [⟨⟨0⟩, 1, ⟨.zero, .splat Row.eight⟩⟩]
      domain := ⟨.zero, .splat Row.eight⟩
      widest := Row.eight
      coherent := by constructor <;> decide }]
  distinct := by decide

/-- One unit on both levels. -/
def throughout : List WorkUnit := [Row.unit "average" [⟨0⟩, ⟨1⟩]]

private theorem leadsOn_throughout {level : Nat} :
    LeadsOn finestFirst throughout level ↔ level = 1 := by
  constructor
  · rintro ⟨unit, member, -, id, first, region, regionAt, rfl⟩
    rw [List.mem_singleton.mp member] at first
    cases first
    cases regionAt
    rfl
  · rintro rfl
    exact ⟨_, List.mem_cons_self, rfl, ⟨0⟩, rfl, _, rfl, rfl⟩

private theorem bindsOn_throughout : BindsOn finestFirst throughout 0 :=
  ⟨_, List.mem_cons_self, rfl, ⟨1⟩, by decide, _, rfl, rfl⟩

end Stack

theorem coarsest_of_leading_regions_throughout :
    (∀ unit ∈ Stack.throughout, unit.pinned = none) ∧
      (∀ unit ∈ Stack.throughout, ∀ id ∈ unit.boundRegions,
        (Stack.finestFirst.region? id).isSome = true) ∧
      coarsestActiveLevel? Stack.finestFirst Stack.throughout = some 1 ∧
        IsCoarsest Stack.throughout (LeadsOn Stack.finestFirst Stack.throughout) (some 1) ∧
          ¬ IsCoarsest Stack.throughout (BindsOn Stack.finestFirst Stack.throughout) (some 1) := by
  have unpinned : ∀ unit ∈ Stack.throughout, unit.pinned = none := by decide
  have onGrid :
      ∀ unit ∈ Stack.throughout, ∀ id ∈ unit.boundRegions,
        (Stack.finestFirst.region? id).isSome = true := by decide
  have found : coarsestActiveLevel? Stack.finestFirst Stack.throughout = some 1 := rfl
  have spec := coarsest_of_leading_regions unpinned onGrid
  rw [found] at spec
  refine ⟨unpinned, onGrid, found, spec.1, fun whole => ?_⟩
  rcases spec.2.2.mp whole with ⟨unit, member, policy⟩ | below
  · rw [List.mem_singleton.mp member] at policy
    cases policy
  · obtain ⟨first, atMost, leads⟩ := below 0 Stack.bindsOn_throughout
    rw [Stack.leadsOn_throughout.mp leads] at atMost
    cases atMost

/-- A unit is bound to a region on level 0 and to one on level 1, and level 1 is
taken for the coarsest. -/
theorem coarser_region_missed_throughout :
    ¬ ∀ (grid : Grid) (units : List WorkUnit),
      (∀ unit ∈ units, unit.pinned = none) →
        (∀ unit ∈ units, ∀ id ∈ unit.boundRegions, (grid.region? id).isSome = true) →
          IsCoarsest units (BindsOn grid units) (coarsestActiveLevel? grid units) := by
  intro always
  have whole := always Stack.finestFirst Stack.throughout (by decide) (by decide)
  have least : IsLeastWith (BindsOn Stack.finestFirst Stack.throughout) (some 1) :=
    whole.least (by decide)
  have atMost : 1 ≤ 0 := least.2 0 Stack.bindsOn_throughout
  cases atMost

end MeshTasks
