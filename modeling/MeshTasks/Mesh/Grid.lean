import MeshTasks.Mesh.Level

/-!
# Grids

A grid stacks levels, coarsest first. Boxes are carried from level to level
through the ratio of every level on the way. Regions are found by their numbers,
which occur once in a grid.
-/

namespace MeshTasks

namespace Grid

/-- The first region of a list whose number occurred before, given the numbers
seen so far. -/
def firstRepeated (seen : List RegionId) : List RegionId → Option RegionId
  | [] => none
  | region :: rest => if region ∈ seen then some region else firstRepeated (region :: seen) rest

theorem nodup_of_firstRepeated_eq_none {seen ids : List RegionId}
    (noneRepeated : firstRepeated seen ids = none) :
    ids.Nodup ∧ ∀ id ∈ ids, id ∉ seen := by
  induction ids generalizing seen with
  | nil => exact ⟨List.nodup_nil, fun _ member => absurd member List.not_mem_nil⟩
  | cons head tail inductionHypothesis =>
      unfold firstRepeated at noneRepeated
      split at noneRepeated
      · cases noneRepeated
      · rename_i headFresh
        have ⟨tailNodup, tailFresh⟩ := inductionHypothesis noneRepeated
        refine ⟨List.nodup_cons.mpr ⟨fun inTail => ?_, tailNodup⟩, fun id member => ?_⟩
        · exact tailFresh head inTail List.mem_cons_self
        · rcases List.mem_cons.mp member with same | inTail
          · exact same ▸ headFresh
          · exact fun inSeen => tailFresh id inTail (List.mem_cons_of_mem _ inSeen)

/-- The regions of some levels, level by level. -/
def regionsOf (levels : List Level) : List Region :=
  levels.flatMap Level.regions

end Grid

structure Grid where
  levels : List Level
  distinct : ((Grid.regionsOf levels).map Region.id).Nodup
deriving DecidableEq

namespace Grid

/-- The grid without levels. -/
def empty : Grid := ⟨[], List.nodup_nil⟩

instance : Inhabited Grid := ⟨empty⟩

/-- The grid of the given levels, coarsest first. -/
def ofLevels (levels : List Level) : Except Error Grid :=
  match repeated : firstRepeated [] ((regionsOf levels).map Region.id) with
  | some region => .error (.duplicateRegion region)
  | none => .ok ⟨levels, (nodup_of_firstRepeated_eq_none repeated).1⟩

/-- Every region, level by level. -/
def regions (grid : Grid) : List Region :=
  regionsOf grid.levels

def region? (grid : Grid) (id : RegionId) : Option Region :=
  grid.regions.find? fun region => decide (region.id = id)

/-- The level at a position. -/
def level? (grid : Grid) (position : Nat) : Option Level :=
  grid.levels[position]?

/-- The level some steps away from a position, towards finer levels if the steps
are positive. -/
def levelAt? (grid : Grid) (position : Nat) (steps : Int) : Option Level :=
  let target := (position : Int) + steps
  if target < 0 then none else grid.level? target.toNat

/-- The ratios between two positions, from the coarser one upwards. -/
def ratiosBetween (grid : Grid) (coarse fine : Nat) : List Vec :=
  ((grid.levels.drop (coarse + 1)).take (fine - coarse)).map Level.ratio

/-- Carries a box down to a coarser level, if both levels exist. -/
def coarsenBox (grid : Grid) (box : Box) (source target : Nat) : Except Fault (Option Box) :=
  if source < target ∨ grid.levels.length ≤ source then
    .ok none
  else
    some <$> (grid.ratiosBetween target source).reverse.foldlM Box.coarsen box

/-- Carries a box up to a finer level, if both levels exist. -/
def refineBox (grid : Grid) (box : Box) (source target : Nat) : Except Fault (Option Box) :=
  if target < source ∨ grid.levels.length ≤ target then
    .ok none
  else
    some <$> (grid.ratiosBetween source target).foldlM Box.refine box

end Grid

end MeshTasks
