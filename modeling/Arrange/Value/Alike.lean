import Arrange.Value.Basic

/-!
# Values that look the same

Two values look the same when they are the same, or are arrays of elements that look the same, or
are objects that look the same by a given test.
-/

set_option autoImplicit false

namespace Arrange.Value

variable {ω : Type} [DecidableEq ω]

mutual

/-- Whether two values look the same, where `test` decides it for objects. -/
def looksLike (test : ω → ω → Bool) : Value ω → Value ω → Bool
  | .array _ xs, .array _ ys => elementsLookAlike test xs ys
  | .object o, .object p => decide (o = p) || test o p
  | a, b => decide (a = b)

/-- Whether two lists hold values that look the same in the same places. -/
def elementsLookAlike (test : ω → ω → Bool) : List (Value ω) → List (Value ω) → Bool
  | [], [] => true
  | x :: xs, y :: ys => x.looksLike test y && elementsLookAlike test xs ys
  | _, _ => false

end

end Arrange.Value
