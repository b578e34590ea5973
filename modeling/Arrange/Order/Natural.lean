import Arrange.Order.Primitive
import Arrange.Value.Basic

/-!
# The natural order

Two present values have a natural order in common when they are of the same primitive kind, when
both are dates, or when both bring an order of their own (`haveCommonOrder`).
`compareNatural` compares by it, and fails for any other two values.
-/

set_option autoImplicit false

namespace Arrange

variable {ω : Type} [Objects ω]

/-! ## Capabilities -/

namespace Value

/-- An object that is not a function. -/
def asNonFunction? : Value ω → Option ω
  | .object o =>
      match Objects.form o with
      | .function => none
      | _ => some o
  | _ => none

/-- The time of a date. -/
def time? : Value ω → Option Float
  | .object o =>
      match Objects.form o with
      | .date time => some time
      | _ => none
  | _ => none

/-- Whether a value is a date, valid or not. -/
def isDate (v : Value ω) : Bool := v.time?.isSome

/-- A value's own order. A function has none. -/
def ownOrder? (v : Value ω) : Option (Value ω → Except (Fault ω) (Value ω)) :=
  v.asNonFunction?.bind Objects.ownOrder?

/-- A value's own equality. A function has none. -/
def ownEquality? (v : Value ω) : Option (Value ω → Except (Fault ω) (Value ω)) :=
  v.asNonFunction?.bind Objects.ownEquality?

/-- A value's own hash code. A function has none. -/
def ownHash? (v : Value ω) : Option (Except (Fault ω) (Value ω)) :=
  v.asNonFunction?.bind Objects.ownHash?

end Value

/-- Whether a value brings an order of its own. -/
def bringsOrder (v : Value ω) : Bool := v.ownOrder?.isSome

/-- Whether a value brings an equality of its own. -/
def bringsEquality (v : Value ω) : Bool := v.ownEquality?.isSome

/-- Whether a value brings a hash code of its own. -/
def bringsHash (v : Value ω) : Bool := v.ownHash?.isSome

/-- Whether a value has a natural order. -/
def hasNaturalOrder (v : Value ω) : Bool :=
  match v with
  | .number _ => true
  | .bigint _ => true
  | .text _ => true
  | .bool _ => true
  | _ => v.isDate || bringsOrder v

/-! ## Comparing -/

/-- Whether two values are primitives of the same kind that has an order. -/
def sameOrderedKind : Value ω → Value ω → Bool
  | .number _, .number _ => true
  | .bigint _, .bigint _ => true
  | .text _, .text _ => true
  | .bool _, .bool _ => true
  | _, _ => false

/-- Whether two values have a natural order in common. A date only goes with a date, and a value
with an order of its own only with another such value. -/
def haveCommonOrder (a b : Value ω) : Bool :=
  if a.isDate || b.isDate then a.isDate && b.isDate
  else if bringsOrder a || bringsOrder b then bringsOrder a && bringsOrder b
  else sameOrderedKind a b

/-- The comparison of two objects: dates by their time, others by the order that the first one
brings, provided that both bring one. -/
def compareObjects (a b : Value ω) : Except (Fault ω) (Value ω) :=
  match a.time?, b.time? with
  | some s, some t => .ok (.ofOrdering (dateOrder s t))
  | _, _ =>
      match a.ownOrder?, b.ownOrder? with
      | some compareTo, some _ => compareTo b
      | _, _ => .error (.notComparable a b)

/-- The comparison of two present values by their natural order. -/
def compareNatural (a b : Value ω) : Except (Fault ω) (Value ω) :=
  match a, b with
  | .number x, .number y => .ok (.ofOrdering (numberOrder x y))
  | .text s, .text t => .ok (.ofOrdering (textOrder s t))
  | .bigint m, .bigint n => .ok (.ofOrdering (integerOrder m n))
  | .bool b, .bool c => .ok (.ofOrdering (boolOrder b c))
  | a, b => compareObjects a b

end Arrange
