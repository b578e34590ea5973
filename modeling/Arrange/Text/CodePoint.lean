import Arrange.Text.Basic

/-!
# Code points of a text

`Text.codePoints` cuts a text into its code points: a surrogate pair is one piece, and any other
code unit, a surrogate that stands alone included, is a piece of its own. The pieces joined give
the text back (`flatten_codePoints`).
-/

set_option autoImplicit false

namespace Arrange.Text

/-- The pieces of a text: surrogate pairs, and single units elsewhere. -/
def codePoints : Text → List Text
  | [] => []
  | [u] => [[u]]
  | u :: v :: rest =>
      if isHighSurrogate u && isLowSurrogate v then [u, v] :: codePoints rest
      else [u] :: codePoints (v :: rest)

/-- Cutting a text into code points loses nothing. -/
theorem flatten_codePoints (t : Text) : (codePoints t).flatten = t := by
  fun_induction codePoints t with
  | case1 => rfl
  | case2 u => rfl
  | case3 u v rest h ih => simp [ih]
  | case4 u v rest h ih => simp [ih]

end Arrange.Text
