import Arrange.Number.Binary
import Arrange.Text.Basic

/-!
# The orders of primitive values

Each of these is a total order. Numbers compare numerically, with -0 just below 0 and NaN above
all others; whole numbers of any size numerically; texts by code unit; truth values with false
first; dates by their time, invalid ones last.
-/

set_option autoImplicit false

namespace Arrange

/-- The order of doubles: numeric, with -0 just below 0 and NaN above all others. -/
def numberOrder (x y : Float) : Ordering :=
  if x < y then .lt
  else if y < x then .gt
  else
    match x.isNaN, y.isNaN with
    | true, true => .eq
    | true, false => .gt
    | false, true => .lt
    | false, false =>
        match Number.isNegativeZero x, Number.isNegativeZero y with
        | true, false => .lt
        | false, true => .gt
        | _, _ => .eq

/-- The order of whole numbers of any size. -/
def integerOrder (m n : Int) : Ordering := compare m n

/-- The order of texts by code unit, a proper prefix first. -/
def textOrder (s t : Text) : Ordering := Text.compare s t

/-- The order of truth values: false first. -/
def boolOrder (b c : Bool) : Ordering :=
  match b, c with
  | false, true => .lt
  | true, false => .gt
  | _, _ => .eq

/-- The order of dates by their time, invalid dates last. -/
def dateOrder (s t : Float) : Ordering := numberOrder s t

end Arrange
