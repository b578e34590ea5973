import Arrange.Comparator.Argument
import Arrange.Value.Sequence

/-!
# Elementary comparators and keys

Comparators that compare any two values in one given way, as numbers, as conditions, as dates or
just as they relate, and others that compare lengths, subtract, look a pair up in a table, always
give the same or always fail. Then keys of the same kinds.
-/

set_option autoImplicit false

namespace Arrange

/-! ## Comparing as one kind -/

section Kinds

variable {ω : Type} [Objects ω]

/-- The comparison of two values by where the first one stands; values that stand nowhere are
equal. -/
def compareRelated (a b : Value ω) : Except (Fault ω) Ordering :=
  (a.relate b).map (·.getD .eq)

/-- Whether a value is the double NaN. -/
def Value.isNaN : Value ω → Bool
  | .number x => x.isNaN
  | _ => false

/-- Whether a value is the negative one of the two zeros among the doubles. -/
def Value.isNegativeZero : Value ω → Bool
  | .number x => Number.isNegativeZero x
  | _ => false

/-- The order of two values neither of which stands below the other: NaN after everything else,
and after a first value of zero the sign of the zeros. -/
def orderOfUnrelated (a b : Value ω) : Ordering :=
  match a.isNaN, b.isNaN with
  | true, true => .eq
  | true, false => .gt
  | false, true => .lt
  | false, false =>
      if a.isZero then
        match a.isNegativeZero, b.isNegativeZero with
        | true, false => .lt
        | false, true => .gt
        | _, _ => .eq
      else .eq

/-- The comparison of two values as numbers. On doubles it is `numberOrder`. -/
def compareAsNumbers (a b : Value ω) : Except (Fault ω) Ordering := do
  match ← a.relate b with
  | some .lt => return .lt
  | some .gt => return .gt
  | _ => return orderOfUnrelated a b

/-- The comparison of two values as conditions: values that are equal without conversion are
equal, and of all others the first one decides. On truth values it is `boolOrder`. -/
def compareAsConditions [DecidableEq ω] (a b : Value ω) : Ordering :=
  if a.strictlyEquals b then .eq else if a.truthy then .gt else .lt

/-- The comparison of two dates. Anything else is refused. -/
def compareAsDates (a b : Value ω) : Except (Fault ω) Ordering :=
  match a.time?, b.time? with
  | some s, some t => .ok (dateOrder s t)
  | _, _ => .error .illTyped

end Kinds

/-! ## Comparators -/

namespace Comparator

variable {m : Type → Type} {ω : Type} [Monad m] [MonadExceptOf (Fault ω) m]

/-- Always the same result. -/
def constant (v : Value ω) : Comparator m ω := fun _ _ => pure v

/-- Always a failure. -/
def failing (message : Text) : Comparator m ω := fun _ _ => throw (Fault.raised message)

/-- The comparator of a comparison. -/
def ofComparison (compare : Value ω → Value ω → Except (Fault ω) Ordering) : Comparator m ω :=
  fun a b => MonadExcept.ofExcept ((compare a b).map .ofOrdering)

variable [Objects ω]

/-- The comparator by where the first value stands. -/
def related : Comparator m ω := ofComparison compareRelated

/-- The comparator of values as numbers. -/
def numbers : Comparator m ω := ofComparison compareAsNumbers

/-- The comparator of values as conditions. -/
def conditions [DecidableEq ω] : Comparator m ω :=
  ofComparison fun a b => .ok (compareAsConditions a b)

/-- The comparator of dates. -/
def dates : Comparator m ω := ofComparison compareAsDates

/-- The difference of the two values. -/
def difference : Comparator m ω := fun a b => MonadExcept.ofExcept (a.minus b)

/-- The difference of the lengths of the two values. -/
def byLength : Comparator m ω := fun a b => MonadExcept.ofExcept do
  let k ← a.length
  let l ← b.length
  k.minus l

/-- What a table holds for a value, `undefined` where it holds nothing. -/
def lookedUp (table : List (Text × Value ω)) (v : Value ω) : Except (Fault ω) (Value ω) := do
  match ← v.lookUpText? with
  | some key => return ((table.find? (·.1 == key)).map (·.2)).getD .undefined
  | none => return .undefined

/-- The first value, where the table sends it to the second one, is above it; equal values are
equal, and all others below. -/
def beats [DecidableEq ω] (table : List (Text × Value ω)) : Comparator m ω := fun a b => do
  if a.strictlyEquals b then return .ofOrdering .eq
  let beaten ← MonadExcept.ofExcept (lookedUp table a)
  return .ofOrdering (if beaten.strictlyEquals b then .gt else .lt)

end Comparator

/-! ## Keys -/

namespace Key

variable {m : Type → Type} {ω : Type} [Monad m] [MonadExceptOf (Fault ω) m]

/-- The value itself. -/
def identity : Key m ω := pure

/-- Always the same key. -/
def constant (k : Value ω) : Key m ω := fun _ => pure k

/-- Always a failure. -/
def failing (message : Text) : Key m ω := fun _ => throw (Fault.raised message)

variable [Objects ω]

/-- A field of the value. -/
def field (name : Text) : Key m ω := fun v => pure (v.field name)

/-- The length of the value. -/
def length : Key m ω := fun v => MonadExcept.ofExcept v.length

end Key

end Arrange
