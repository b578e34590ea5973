import Arrange.Order.NullSafe
import Arrange.Value.Conversion

/-!
# Tests and choices by comparison

The smaller and the larger of two values, the six tests of their order, and the two tests for a
range whose bounds may come in either order. All compare with absent values first.
-/

set_option autoImplicit false

namespace Arrange

variable {ω : Type} [DecidableEq ω] [Objects ω]

/-- Where the comparison of two values stands relative to zero, absent values first. -/
def standing (a b : Value ω) : Except (Fault ω) (Option Ordering) := do
  (← compareOptional a b false).compareZero

/-- Whether the first value is smaller. -/
def lt (a b : Value ω) : Except (Fault ω) Bool := do
  return (← standing a b) == some .lt

/-- Whether the first value is larger. -/
def gt (a b : Value ω) : Except (Fault ω) Bool := do
  return (← standing a b) == some .gt

/-- Whether the first value is smaller or equal. -/
def le (a b : Value ω) : Except (Fault ω) Bool := do
  return (← standing a b).any (·.isLE)

/-- Whether the first value is larger or equal. -/
def ge (a b : Value ω) : Except (Fault ω) Bool := do
  return (← standing a b).any (·.isGE)

/-- Whether the comparison of two values gives zero. -/
def ties (a b : Value ω) : Except (Fault ω) Bool := do
  return (← compareOptional a b false).isZero

/-- The smaller of two values, the first when they are equal. -/
def smaller (a b : Value ω) : Except (Fault ω) (Value ω) := do
  return if ← le a b then a else b

/-- The larger of two values, the first when they are equal. -/
def larger (a b : Value ω) : Except (Fault ω) (Value ω) := do
  return if ← ge a b then a else b

/-- Whether a value lies between two bounds or on one of them. The larger bound is not looked for
when the value is below the smaller one. -/
def inRange (v a b : Value ω) : Except (Fault ω) Bool := do
  if ← ge v (← smaller a b) then le v (← larger a b) else return false

/-- Whether a value lies strictly between two bounds. -/
def inOpenRange (v a b : Value ω) : Except (Fault ω) Bool := do
  if ← gt v (← smaller a b) then lt v (← larger a b) else return false

end Arrange
