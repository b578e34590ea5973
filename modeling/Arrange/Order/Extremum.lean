import Arrange.Comparator.Argument

/-!
# The greatest and the least of a sequence

One pass keeps the best element so far. A later element takes its place only when the comparison
with it says so, so that of equally good elements the first one stays.
-/

set_option autoImplicit false

namespace Arrange

variable {m : Type → Type} {ω : Type} [Monad m] [MonadExceptOf (Fault ω) m] [Objects ω]

/-- Whether the comparison of `a` with `b` stands where `wanted` says. -/
def winsOver (c : Comparator m ω) (wanted : Ordering) (a b : Value ω) : m Bool := do
  let standing ← MonadExcept.ofExcept (← c a b).compareZero
  return standing == some wanted

/-- The best of an element and those after it. -/
def bestFrom (c : Comparator m ω) (wanted : Ordering) (best : Value ω) :
    List (Value ω) → m (Value ω)
  | [] => pure best
  | v :: rest => do
      bestFrom c wanted (if ← winsOver c wanted v best then v else best) rest

/-- The best of a sequence, `undefined` for the empty one. -/
def best (c : Comparator m ω) (wanted : Ordering) : List (Value ω) → m (Value ω)
  | [] => pure .undefined
  | v :: rest => bestFrom c wanted v rest

/-- The comparator of the natural order with absent values first. -/
def optionalNatural [DecidableEq ω] : Comparator m ω := fun a b =>
  MonadExcept.ofExcept (compareOptional a b false)

/-- The comparator that an argument stands for, absent ones for the natural order with absent
values first. -/
def selector [DecidableEq ω] (argument : Argument ω (Comparator m ω)) : Comparator m ω :=
  if argument.isAbsent then optionalNatural else argument.comparator

/-- The greatest element, the first one of several. -/
def greatest [DecidableEq ω] (values : List (Value ω)) (argument : Argument ω (Comparator m ω)) :
    m (Value ω) := best (selector argument) .gt values

/-- The least element, the first one of several. -/
def least [DecidableEq ω] (values : List (Value ω)) (argument : Argument ω (Comparator m ω)) :
    m (Value ω) := best (selector argument) .lt values

end Arrange
