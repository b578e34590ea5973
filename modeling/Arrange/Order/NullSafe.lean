import Arrange.Order.Natural

/-!
# Comparing values that may be absent

`compareOptional` extends the natural order to the absent values, which all rank before the
present ones or all after them.
-/

set_option autoImplicit false

namespace Arrange

variable {ω : Type}

/-- The comparison of two values of which one is absent: the absent values are equal among
themselves and rank first, or last with `absentLast`. There is none for two present values. -/
def absentOrder? (a b : Value ω) (absentLast : Bool) : Option Ordering :=
  match a.isAbsent, b.isAbsent with
  | true, true => some .eq
  | true, false => some (if absentLast then .gt else .lt)
  | false, true => some (if absentLast then .lt else .gt)
  | false, false => none

/-- The comparison of two values of which each may be absent. The same value twice is equal, even
if it has no natural order. -/
def compareOptional [DecidableEq ω] [Objects ω] (a b : Value ω) (absentLast : Bool) :
    Except (Fault ω) (Value ω) :=
  if a = b then .ok (.ofOrdering .eq)
  else
    match absentOrder? a b absentLast with
    | some o => .ok (.ofOrdering o)
    | none => compareNatural a b

end Arrange
