import Arrange.Text.Basic

/-!
# Hash codes of texts

`Text.hash` is the polynomial in 31 whose coefficients are the code units, in 32-bit arithmetic
that wraps.
-/

set_option autoImplicit false

namespace Arrange.Text

/-- One step of the hash: multiply by 31 and add the next unit. -/
def hashStep (h : Int32) (u : UInt16) : Int32 := 31 * h + u.toUInt32.toInt32

/-- The 32-bit hash code of a text. -/
def hash (t : Text) : Int32 := t.foldl hashStep 0

end Arrange.Text
