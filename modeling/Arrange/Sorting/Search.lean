/-!
# Search for a boundary

In an ordered list the elements that satisfy a test which follows the order stand in front of those
that do not. `boundary` finds where they end by halving a given part of the list; `leading` first
looks for that part in strides of doubling length, and is quick where the end is near. Neither
supposes that the test does follow the order: which elements are tested depends on the answers
alone.

The same list may be held from its front or from its back. `Side` says which, and both searches
then test the same elements, for between two middle ones they prefer the one nearer to the back.
-/

set_option autoImplicit false

namespace Arrange

namespace Sorting

/-- The end of an ordered list from which its elements are counted. -/
inductive Side where
  | front
  | back
deriving DecidableEq

/-- How many of `size` elements are passed over on the way to the middle one. -/
def Side.half : Side → Nat → Nat
  | front, size => size / 2
  | back, size => (size - 1) / 2

/-- The middle element is one of the elements. -/
theorem Side.half_lt (side : Side) {size : Nat} (h : 0 < size) : side.half size < size := by
  cases side <;> simp only [Side.half] <;> omega

variable {m : Type → Type} [Monad m] {α : Type}

/-- Where the elements that satisfy a test end, between the positions `low` and `high`. -/
def boundary (side : Side) (test : α → m Bool) (xs : List α) (low high : Nat)
    (h : high ≤ xs.length) : m Nat :=
  if hlt : low < high then
    have hmid : side.half (high - low) < high - low := side.half_lt (by omega)
    do
      if ← test (xs.get ⟨low + side.half (high - low), by omega⟩) then
        boundary side test xs (low + side.half (high - low) + 1) high h
      else
        boundary side test xs low (low + side.half (high - low)) (by omega)
  else pure low
termination_by high - low

/-- Where the elements that satisfy a test end, from the position `low` on. -/
def boundaryFrom (side : Side) (test : α → m Bool) (xs : List α) (low : Nat) : m Nat :=
  boundary side test xs low xs.length (Nat.le_refl _)

/-- Where the elements that satisfy a test end, when the first `passed` ones are taken to satisfy
it. The last of twice as many is tested next. -/
def stride (side : Side) (test : α → m Bool) (xs : List α) (passed : Nat)
    (hpos : 0 < passed) : m Nat :=
  if hlt : 2 * passed ≤ xs.length then do
    if ← test (xs.get ⟨2 * passed - 1, by omega⟩) then
      stride side test xs (2 * passed) (by omega)
    else
      boundary side test xs passed (2 * passed - 1) (by omega)
  else boundaryFrom side test xs passed
termination_by xs.length - passed

/-- How many elements at the start of a list satisfy a test. -/
def leading (side : Side) (test : α → m Bool) : List α → m Nat
  | [] => pure 0
  | x :: xs => do
      if ← test x then stride side test (x :: xs) 1 Nat.one_pos else pure 0

end Sorting

end Arrange
