import MeshTasks.Space.Coord

/-!
# Vectors

A vector has one coordinate on each axis. It serves as the position of a cell,
as an offset between cells, as the extent of a box and as a refinement ratio. An
operation that may fault works on `x` before `y` before `z`, so its fault is
that of the first axis concerned.
-/

namespace MeshTasks

inductive Axis where
  | x
  | y
  | z
deriving DecidableEq

namespace Axis

/-- The axis with a number; every number past `1` names the last axis. -/
def ofNumber : Nat → Axis
  | 0 => x
  | 1 => y
  | _ => z

/-- The axes in order. -/
def all : List Axis := [x, y, z]

end Axis

@[ext]
structure Vec where
  x : Coord
  y : Coord
  z : Coord
deriving DecidableEq

namespace Vec

/-- The vector with one coordinate on every axis. -/
def splat (coord : Coord) : Vec := ⟨coord, coord, coord⟩

def zero : Vec := splat .zero

def one : Vec := splat .one

instance : Inhabited Vec := ⟨zero⟩

def get (vec : Vec) : Axis → Coord
  | .x => vec.x
  | .y => vec.y
  | .z => vec.z

/-- The vector with the coordinate of one axis replaced. -/
def set (vec : Vec) (axis : Axis) (coord : Coord) : Vec :=
  match axis with
  | .x => { vec with x := coord }
  | .y => { vec with y := coord }
  | .z => { vec with z := coord }

/-- Applies an operation to each coordinate, in the order of the axes. -/
def mapM (operation : Coord → Except Fault Coord) (vec : Vec) : Except Fault Vec := do
  let x ← operation vec.x
  let y ← operation vec.y
  let z ← operation vec.z
  return ⟨x, y, z⟩

/-- Applies an operation to the coordinates of two vectors, in the order of the
axes. -/
def zipWithM (operation : Coord → Coord → Except Fault Coord) (left right : Vec) :
    Except Fault Vec := do
  let x ← operation left.x right.x
  let y ← operation left.y right.y
  let z ← operation left.z right.z
  return ⟨x, y, z⟩

def add : Vec → Vec → Except Fault Vec := zipWithM Coord.add

def sub : Vec → Vec → Except Fault Vec := zipWithM Coord.sub

def mul : Vec → Vec → Except Fault Vec := zipWithM Coord.mul

def neg : Vec → Except Fault Vec := mapM Coord.neg

/-- Rounds each quotient down, for a ratio that is positive on every axis. -/
def divFloor : Vec → Vec → Except Fault Vec := zipWithM Coord.divFloor

/-- Rounds each quotient up, for a ratio that is positive on every axis. -/
def divCeil : Vec → Vec → Except Fault Vec := zipWithM Coord.divCeil

instance : Min Vec :=
  ⟨fun left right => ⟨min left.x right.x, min left.y right.y, min left.z right.z⟩⟩

instance : Max Vec :=
  ⟨fun left right => ⟨max left.x right.x, max left.y right.y, max left.z right.z⟩⟩

/-- Whether every coordinate is above zero. -/
def isPositive (vec : Vec) : Bool :=
  decide (Coord.zero < vec.x) && decide (Coord.zero < vec.y) && decide (Coord.zero < vec.z)

/-- Vectors are compared by `x`, then by `y`, then by `z`. -/
instance : Ord Vec :=
  ⟨fun left right =>
    (compare left.x right.x).then ((compare left.y right.y).then (compare left.z right.z))⟩

/-- The coordinates in brackets, separated by commas. -/
def render (vec : Vec) : String :=
  "[" ++ toString vec.x.val ++ ", " ++ toString vec.y.val ++ ", " ++ toString vec.z.val ++ "]"

theorem x_min (left right : Vec) : (min left right).x = min left.x right.x := rfl

theorem y_min (left right : Vec) : (min left right).y = min left.y right.y := rfl

theorem z_min (left right : Vec) : (min left right).z = min left.z right.z := rfl

theorem x_max (left right : Vec) : (max left right).x = max left.x right.x := rfl

theorem y_max (left right : Vec) : (max left right).y = max left.y right.y := rfl

theorem z_max (left right : Vec) : (max left right).z = max left.z right.z := rfl

/-- An operation on two vectors has a result exactly when it has one on every
axis. -/
theorem zipWithM_eq_ok_iff {operation : Coord → Coord → Except Fault Coord}
    {left right result : Vec} :
    zipWithM operation left right = .ok result ↔
      operation left.x right.x = .ok result.x ∧ operation left.y right.y = .ok result.y ∧
        operation left.z right.z = .ok result.z := by
  obtain ⟨resultX, resultY, resultZ⟩ := result
  unfold zipWithM
  cases operation left.x right.x with
  | error fault => simp [bind, Except.bind]
  | ok x =>
      cases operation left.y right.y with
      | error fault => simp [bind, Except.bind]
      | ok y =>
          cases operation left.z right.z with
          | error fault => simp [bind, Except.bind]
          | ok z => simp [bind, Except.bind, pure, Except.pure]

/-- An operation on one vector has a result exactly when it has one on every
axis. -/
theorem mapM_eq_ok_iff {operation : Coord → Except Fault Coord} {vec result : Vec} :
    mapM operation vec = .ok result ↔
      operation vec.x = .ok result.x ∧ operation vec.y = .ok result.y ∧
        operation vec.z = .ok result.z := by
  obtain ⟨resultX, resultY, resultZ⟩ := result
  unfold mapM
  cases operation vec.x with
  | error fault => simp [bind, Except.bind]
  | ok x =>
      cases operation vec.y with
      | error fault => simp [bind, Except.bind]
      | ok y =>
          cases operation vec.z with
          | error fault => simp [bind, Except.bind]
          | ok z => simp [bind, Except.bind, pure, Except.pure]

theorem add_eq_ok_iff {left right result : Vec} :
    left.add right = .ok result ↔
      result.x.val = left.x.val + right.x.val ∧ result.y.val = left.y.val + right.y.val ∧
        result.z.val = left.z.val + right.z.val := by
  simp only [add, zipWithM_eq_ok_iff, Coord.add, Coord.checked_eq_ok_iff]

theorem sub_eq_ok_iff {left right result : Vec} :
    left.sub right = .ok result ↔
      result.x.val = left.x.val - right.x.val ∧ result.y.val = left.y.val - right.y.val ∧
        result.z.val = left.z.val - right.z.val := by
  simp only [sub, zipWithM_eq_ok_iff, Coord.sub, Coord.checked_eq_ok_iff]

theorem mul_eq_ok_iff {left right result : Vec} :
    left.mul right = .ok result ↔
      result.x.val = left.x.val * right.x.val ∧ result.y.val = left.y.val * right.y.val ∧
        result.z.val = left.z.val * right.z.val := by
  simp only [mul, zipWithM_eq_ok_iff, Coord.mul, Coord.checked_eq_ok_iff]

theorem neg_eq_ok_iff {vec result : Vec} :
    vec.neg = .ok result ↔
      result.x.val = -vec.x.val ∧ result.y.val = -vec.y.val ∧ result.z.val = -vec.z.val := by
  simp only [neg, mapM_eq_ok_iff, Coord.neg, Coord.checked_eq_ok_iff]

theorem min_eq_left_iff {left right : Vec} :
    min left right = left ↔
      left.x.val ≤ right.x.val ∧ left.y.val ≤ right.y.val ∧ left.z.val ≤ right.z.val := by
  simp only [Vec.ext_iff, x_min, y_min, z_min, Coord.ext_iff, Coord.val_min]
  omega

theorem max_eq_left_iff {left right : Vec} :
    max left right = left ↔
      right.x.val ≤ left.x.val ∧ right.y.val ≤ left.y.val ∧ right.z.val ≤ left.z.val := by
  simp only [Vec.ext_iff, x_max, y_max, z_max, Coord.ext_iff, Coord.val_max]
  omega

end Vec

end MeshTasks
