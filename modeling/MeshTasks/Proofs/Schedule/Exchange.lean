import MeshTasks.Validation

/-!
# What the schedule looks at

The schedule of units depends on their names, their policies, what they compute
and which labels they need, and on nothing else that was declared of them. Units
may be exchanged for others that are the same in this, and if no unit gains or
loses an error by it, their validation is the same as well.
-/

namespace MeshTasks

/-- A change of units after which they are scheduled as before. -/
structure WorkUnit.KeepsNeeds (change : WorkUnit → WorkUnit) : Prop where
  name_eq : ∀ unit, (change unit).name = unit.name
  policy_eq : ∀ unit, (change unit).policy = unit.policy
  computes_eq : ∀ unit, (change unit).computes = unit.computes
  neededLabels_eq : ∀ unit, (change unit).neededLabels = unit.neededLabels

namespace WorkUnit.KeepsNeeds

variable {change : WorkUnit → WorkUnit}

theorem computersOf_map
    (keeps : KeepsNeeds change)
    (units : List WorkUnit) (label : Label) :
    computersOf (units.map change) label = computersOf units label := by
  unfold computersOf
  rw [List.length_map]
  congr 1
  funext position
  rw [List.getElem?_map]
  cases units[position]? with
  | none => rfl
  | some unit => simp [computesLabel, keeps.computes_eq]

theorem needsOf_map (keeps : KeepsNeeds change) (units : List WorkUnit) :
    needsOf (units.map change) = needsOf units := by
  funext position
  unfold needsOf
  rw [List.getElem?_map]
  cases units[position]? with
  | none => rfl
  | some unit => simp [keeps.neededLabels_eq, keeps.computersOf_map]

theorem isCollective_map (keeps : KeepsNeeds change) (units : List WorkUnit) :
    isCollective (units.map change) = isCollective units := by
  funext position
  unfold isCollective
  rw [List.getElem?_map]
  cases units[position]? with
  | none => rfl
  | some unit => simp [isSynchronizing, keeps.policy_eq]

theorem render_map (keeps : KeepsNeeds change) (units : List WorkUnit) :
    Hop.render (units.map change) = Hop.render units := by
  have sameName : ∀ position, nameAt (units.map change) position = nameAt units position := by
    intro position
    unfold nameAt
    rw [List.getElem?_map]
    cases units[position]? with
    | none => rfl
    | some unit => simp [keeps.name_eq]
  funext hop
  simp [Hop.render, sameName]

theorem schedule_map (keeps : KeepsNeeds change) (units : List WorkUnit) :
    schedule (units.map change) = schedule units := by
  simp only [schedule, depthFirstOrder, seatCollectives, needsUnit, keeps.needsOf_map,
    keeps.isCollective_map, keeps.render_map, List.length_map]

theorem phaseOf?_map (keeps : KeepsNeeds change) (units : List WorkUnit) :
    phaseOf? (units.map change) = phaseOf? units := by
  funext order position
  simp only [phaseOf?, phases, keeps.isCollective_map]

theorem validate_map
    (keeps : KeepsNeeds change)
    {grid : Grid}
    (sameErrors : ∀ unit, (change unit).errors grid = unit.errors grid)
    (units : List WorkUnit) :
    validate grid (units.map change) = validate grid units := by
  have sameProblems :
      validationErrors grid (units.map change) = validationErrors grid units := by
    simp only [validationErrors, loopErrors, keeps.schedule_map, List.flatMap_map, sameErrors]
  rw [validate, sameProblems, validate]

end WorkUnit.KeepsNeeds

end MeshTasks
