/-!
# Coordinates

A coordinate is a whole number from `-2147483648` to `2147483647`. Sums,
differences, products, negations and quotients of coordinates may leave that
interval, so each of these operations names the fault in which it ends.
Comparison, minimum and maximum always have a result.
-/

namespace MeshTasks

/-- The ways in which an operation on bounded numbers has no result. -/
inductive Fault where
  | addOverflow
  | subtractOverflow
  | multiplyOverflow
  | negateOverflow
  | divideOverflow
  | divideByZero
deriving DecidableEq

/-- The sentence that reports a fault. -/
def Fault.message : Fault → String
  | addOverflow => "attempt to add with overflow"
  | subtractOverflow => "attempt to subtract with overflow"
  | multiplyOverflow => "attempt to multiply with overflow"
  | negateOverflow => "attempt to negate with overflow"
  | divideOverflow => "attempt to divide with overflow"
  | divideByZero => "attempt to divide by zero"

/-- A whole number that fits in thirty-two bits with a sign. -/
@[ext]
structure Coord where
  val : Int
  lower : -2147483648 ≤ val
  upper : val ≤ 2147483647
deriving DecidableEq

namespace Coord

/-- The coordinate nearest to a whole number. -/
def clamp (value : Int) : Coord :=
  if below : value < -2147483648 then
    ⟨-2147483648, by decide, by decide⟩
  else if above : 2147483647 < value then
    ⟨2147483647, by decide, by decide⟩
  else
    ⟨value, by omega, by omega⟩

/-- The coordinate with the given value, if that value is in bounds. -/
def ofInt? (value : Int) : Option Coord :=
  if bounds : -2147483648 ≤ value ∧ value ≤ 2147483647 then
    some ⟨value, bounds.1, bounds.2⟩
  else
    none

/-- The coordinate with the given value; out of bounds, the operation that led
there faults. -/
def checked (fault : Fault) (value : Int) : Except Fault Coord :=
  if bounds : -2147483648 ≤ value ∧ value ≤ 2147483647 then
    .ok ⟨value, bounds.1, bounds.2⟩
  else
    .error fault

def zero : Coord := ⟨0, by decide, by decide⟩

def one : Coord := ⟨1, by decide, by decide⟩

instance : Inhabited Coord := ⟨zero⟩

instance : LE Coord := ⟨fun left right => left.val ≤ right.val⟩

instance : LT Coord := ⟨fun left right => left.val < right.val⟩

instance (left right : Coord) : Decidable (left ≤ right) :=
  inferInstanceAs (Decidable (left.val ≤ right.val))

instance (left right : Coord) : Decidable (left < right) :=
  inferInstanceAs (Decidable (left.val < right.val))

instance : Ord Coord := ⟨fun left right => compare left.val right.val⟩

instance : Min Coord := ⟨fun left right => if left ≤ right then left else right⟩

instance : Max Coord := ⟨fun left right => if left ≤ right then right else left⟩

def add (left right : Coord) : Except Fault Coord :=
  checked .addOverflow (left.val + right.val)

def sub (left right : Coord) : Except Fault Coord :=
  checked .subtractOverflow (left.val - right.val)

def mul (left right : Coord) : Except Fault Coord :=
  checked .multiplyOverflow (left.val * right.val)

def neg (coord : Coord) : Except Fault Coord :=
  checked .negateOverflow (-coord.val)

/-- The Euclidean quotient: the remainder is never negative, so a positive
divisor rounds down. Only the least coordinate divided by minus one is out of
bounds. -/
def divFloor (coord divisor : Coord) : Except Fault Coord :=
  if divisor.val = 0 then
    .error .divideByZero
  else
    checked .divideOverflow (coord.val / divisor.val)

/-- The quotient rounded up by a positive divisor, taken as the negated
Euclidean quotient of the negated coordinate. -/
def divCeil (coord divisor : Coord) : Except Fault Coord := do
  let negated ← coord.neg
  let quotient ← negated.divFloor divisor
  quotient.neg

/-- The difference, held at the least or greatest coordinate when it lies
beyond. -/
def saturatingSub (left right : Coord) : Coord :=
  clamp (left.val - right.val)

theorem le_iff {left right : Coord} : left ≤ right ↔ left.val ≤ right.val :=
  Iff.rfl

theorem lt_iff {left right : Coord} : left < right ↔ left.val < right.val :=
  Iff.rfl

theorem val_min (left right : Coord) : (min left right).val = min left.val right.val := by
  show (if left ≤ right then left else right).val = _
  rw [Int.min_def]
  simp only [le_iff]
  split <;> rfl

theorem val_max (left right : Coord) : (max left right).val = max left.val right.val := by
  show (if left ≤ right then right else left).val = _
  rw [Int.max_def]
  simp only [le_iff]
  split <;> rfl

theorem checked_eq_ok_iff {fault : Fault} {value : Int} {coord : Coord} :
    checked fault value = .ok coord ↔ coord.val = value := by
  unfold checked
  constructor
  · intro result
    split at result
    · cases result
      rfl
    · cases result
  · intro equality
    have bounds : -2147483648 ≤ value ∧ value ≤ 2147483647 :=
      equality ▸ ⟨coord.lower, coord.upper⟩
    rw [dif_pos bounds]
    exact congrArg Except.ok (Coord.ext equality.symm)

end Coord

end MeshTasks
