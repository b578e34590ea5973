import Arrange.Number.Reading
import Arrange.Value.Spelling

/-!
# Values as numbers and as conditions

`Value.truthy` takes a value for a condition, `Value.toNumber` for a number. `Value.relate` says
where one value stands relative to another: texts by code unit, everything else as numbers, and
whole numbers of any size exactly. `Value.compareZero` is how the result of a comparison is read:
it stands below, at or above zero, or nowhere.
-/

set_option autoImplicit false

namespace Arrange

/-! ## Relating numbers -/

namespace Number

/-- Where a double stands relative to another; NaN stands nowhere. -/
def relate (x y : Float) : Option Ordering :=
  if x < y then some .lt
  else if y < x then some .gt
  else if x.isNaN || y.isNaN then none
  else some .eq

/-- Where a whole number stands relative to a double, exactly; the double's whole part decides, and
if it is the number itself then what was cut off. -/
def relateWhole (n : Int) (x : Float) : Option Ordering :=
  if x.isNaN then none
  else if x.isInf then some (if x < 0 then .gt else .lt)
  else
    match compare n (truncate x) with
    | .eq => some (if isInteger x then .eq else if x < 0 then .gt else .lt)
    | o => some o

end Number

/-- A number of either kind. -/
inductive Numeric where
  | double (x : Float)
  | whole (n : Int)

/-- Where a number stands relative to another. -/
def Numeric.relate : Numeric → Numeric → Option Ordering
  | double x, double y => Number.relate x y
  | whole m, whole n => some (compare m n)
  | whole n, double x => Number.relateWhole n x
  | double x, whole n => (Number.relateWhole n x).map (·.swap)

namespace Value

variable {ω : Type}

/-! ## Conditions -/

/-- A value as a condition: the absent values, false, zeros, NaN and the empty text do not hold. -/
def truthy : Value ω → Bool
  | .undefined => false
  | .null => false
  | .bool b => b
  | .number x => !(x == 0 || x.isNaN)
  | .bigint n => n != 0
  | .text t => !t.isEmpty
  | .symbol _ _ => true
  | .array _ _ => true
  | .object _ => true

/-- Whether a value is one of the two zeros among the doubles. Nothing else is, not even a value
that counts as 0. -/
def isZero : Value ω → Bool
  | .number x => x == 0
  | _ => false

/-! ## Numbers -/

section Objects

variable [Objects ω]

/-- The primitive value that stands for a value in arithmetic: of an object what its conversion to
a number gives, else that to a text, and of an array its text. -/
def toPrimitive : Value ω → Except (Fault ω) (Value ω)
  | .array i xs => (spelledWithin (.array i xs)).map .text
  | .object o => firstPrimitive [Objects.ownNumber? o, Objects.ownText? o]
  | v => .ok v

/-- The number that a text spells, NaN when it spells none. -/
def textNumber (t : Text) : Float := (Number.read? t).getD Number.nan

/-- The number that a primitive value stands for. Symbols are refused, and arrays and objects are no
primitives. -/
def primitiveNumeric : Value ω → Except (Fault ω) Numeric
  | .undefined => .ok (.double Number.nan)
  | .null => .ok (.double 0)
  | .bool b => .ok (.double (if b then 1 else 0))
  | .number x => .ok (.double x)
  | .bigint n => .ok (.whole n)
  | .text t => .ok (.double (textNumber t))
  | .symbol _ _ => .error .illTyped
  | .array _ _ => .error .illTyped
  | .object _ => .error .illTyped

/-- The number that stands for a value in arithmetic. -/
def toNumeric (v : Value ω) : Except (Fault ω) Numeric := do
  primitiveNumeric (← toPrimitive v)

/-- The double that stands for a value in arithmetic. Symbols and whole numbers of any size are
refused. -/
def toNumber (v : Value ω) : Except (Fault ω) Float := do
  match ← toNumeric v with
  | .double x => return x
  | .whole _ => .error .illTyped

/-- The difference of two values: of doubles, or of two whole numbers of any size. The first one is
converted before the second is looked at. -/
def minus (a b : Value ω) : Except (Fault ω) (Value ω) := do
  let x ← toNumeric a
  let y ← toNumeric b
  match x, y with
  | .double x, .double y => return .number (x - y)
  | .whole m, .whole n => return .bigint (m - n)
  | _, _ => .error .illTyped

/-! ## Relating values -/

/-- Where a primitive value stands relative to another. Two texts compare by code unit. A text
beside a whole number of any size is read as a whole number, and stands nowhere if it spells none.
-/
def relatePrimitives (p q : Value ω) : Except (Fault ω) (Option Ordering) :=
  match p, q with
  | .text s, .text t => .ok (some (Text.compare s t))
  | .bigint n, .text t => .ok ((Number.readWhole? t).map (compare n))
  | .text t, .bigint n => .ok ((Number.readWhole? t).map (compare · n))
  | p, q => do
      let x ← primitiveNumeric p
      let y ← primitiveNumeric q
      return x.relate y

/-- Where a value stands relative to another; a value that spells no number stands nowhere beside
one. -/
def relate (a b : Value ω) : Except (Fault ω) (Option Ordering) := do
  let p ← toPrimitive a
  let q ← toPrimitive b
  relatePrimitives p q

/-- Where a value stands relative to zero. -/
def compareZero (v : Value ω) : Except (Fault ω) (Option Ordering) := v.relate (.number 0)

end Objects

end Value

end Arrange
