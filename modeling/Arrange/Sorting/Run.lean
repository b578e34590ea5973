import Arrange.Sorting.Search

/-!
# Runs

A run is a sorted stretch of the list to be sorted. A natural run is one that the list itself
brings: its elements are in order already, or strictly in reverse order and then turned round.
`insertAll` lengthens a run by further elements, each put behind the elements of the run that it
does not go before, so that equal elements keep their order.
-/

set_option autoImplicit false

namespace Arrange

namespace Sorting

variable {m : Type → Type} [Monad m] {α : Type}

/-! ## Natural runs -/

/-- How many elements at the start of a list continue a run that ends with `previous`. A run in
order continues while no element goes before the one in front of it, a run in reverse order while
each does. -/
def continuing (before : α → α → m Bool) (reversed : Bool) (previous : α) : List α → m Nat
  | [] => pure 0
  | x :: xs => do
      if (← before x previous) == reversed then
        return (← continuing before reversed x xs) + 1
      else return 0

/-- A natural run that starts with a given element: how many elements behind that one belong to it,
and whether they are in reverse order. -/
structure NaturalRun where
  reversed : Bool
  more : Nat
deriving DecidableEq

/-- The natural run at the start of the list `x :: xs`. -/
def naturalRun (before : α → α → m Bool) (x : α) : List α → m NaturalRun
  | [] => return ⟨false, 0⟩
  | y :: xs => do
      let reversed ← before y x
      return ⟨reversed, (← continuing before reversed y xs) + 1⟩

/-- The elements of a natural run at the start of the list `x :: xs`, in order. -/
def NaturalRun.elements (run : NaturalRun) (x : α) (xs : List α) : List α :=
  if run.reversed then (x :: xs.take run.more).reverse else x :: xs.take run.more

/-! ## Insertion -/

/-- The run with one more element in its place. -/
def insert (before : α → α → m Bool) (run : List α) (x : α) : m (List α) := do
  let i ← boundaryFrom .front (fun y => do return !(← before x y)) run 0
  return run.take i ++ x :: run.drop i

/-- The run with all elements of a list in their places. -/
def insertAll (before : α → α → m Bool) (run : List α) : List α → m (List α)
  | [] => pure run
  | x :: xs => do insertAll before (← insert before run x) xs

/-! ## The least length of a run -/

/-- The number of elements that a run has at least, if so many are left, in a list of `size`
elements: the size itself below 64, and else the size halved until it is below 64, plus one where a
half was not whole. So the list falls into a number of runs that is a power of two or a little
less. -/
def leastRun (size : Nat) (rounded : Bool) : Nat :=
  if size < 64 then size + rounded.toNat
  else leastRun (size / 2) (rounded || size % 2 == 1)

end Sorting

end Arrange
