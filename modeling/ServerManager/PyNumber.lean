import Mathlib.Algebra.Order.Field.Rat

namespace ServerManager.PyNumber

inductive PyFloat
  | nan
  | negInf
  | fin (q : ℚ)
  | posInf
  deriving DecidableEq

namespace PyFloat

/-- `a <= b`, which is false for `nan`. -/
def le : PyFloat → PyFloat → Bool
  | nan, _ => false
  | _, nan => false
  | negInf, _ => true
  | _, posInf => true
  | fin a, fin b => decide (a ≤ b)
  | _, _ => false

def lt : PyFloat → PyFloat → Bool
  | nan, _ => false
  | _, nan => false
  | negInf, b => b != negInf
  | a, posInf => a != posInf
  | fin a, fin b => decide (a < b)
  | _, _ => false

def isNumber (a : PyFloat) : Bool := a != nan

/-- Two numbers are in one of two orders, and `nan` in none. -/
theorem lt_iff (a b : PyFloat) : a.lt b = true ↔
    a.isNumber = true ∧ b.isNumber = true ∧ b.le a = false := by
  cases a <;> cases b <;> simp [lt, le, isNumber]

end PyFloat

end ServerManager.PyNumber
