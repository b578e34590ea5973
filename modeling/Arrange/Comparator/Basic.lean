import Arrange.Order.Universal

/-!
# Comparators

A comparator takes two values and gives a value that is read as below, at or above zero. What it
does on the way is open: `m` is the monad it runs in, which has faults and may have more. Here are
the comparators of the natural order and the ways to make new comparators from others.
-/

set_option autoImplicit false

namespace Arrange

/-- A two-argument ordering function. -/
abbrev Comparator (m : Type → Type) (ω : Type) := Value ω → Value ω → m (Value ω)

/-- A function that derives from a value the key to compare. -/
abbrev Key (m : Type → Type) (ω : Type) := Value ω → m (Value ω)

namespace Comparator

variable {m : Type → Type} {ω : Type}

section Combinators

variable [Monad m]

/-- The comparator that is asked the other way round. -/
def reverse (c : Comparator m ω) : Comparator m ω := fun a b => c b a

/-- A comparator extended to absent values, which rank first, or last with `absentLast`. -/
def withAbsent (absentLast : Bool) (c : Comparator m ω) : Comparator m ω := fun a b =>
  match absentOrder? a b absentLast with
  | some o => pure (.ofOrdering o)
  | none => c a b

/-- A comparator extended to absent values, which rank before all others. -/
def absentFirst (c : Comparator m ω) : Comparator m ω := withAbsent false c

/-- A comparator extended to absent values, which rank after all others. -/
def absentLast (c : Comparator m ω) : Comparator m ω := withAbsent true c

/-- The comparison of keys, the key of the first value derived first. -/
def onKey (key : Key m ω) (c : Comparator m ω) : Comparator m ω := fun a b => do
  let k ← key a
  let l ← key b
  c k l

/-- The result found so far, unless it is zero and there are comparators left to ask. -/
def breakTie (result : Value ω) (a b : Value ω) : List (Comparator m ω) → m (Value ω)
  | [] => pure result
  | c :: rest => do
      if result.isZero then breakTie (← c a b) a b rest else pure result

/-- The first comparator, and wherever it gives zero the next ones in turn. -/
def inTurn (first : Comparator m ω) (rest : List (Comparator m ω)) : Comparator m ω :=
  fun a b => do breakTie (← first a b) a b rest

end Combinators

section Leaves

variable [Monad m] [MonadExceptOf (Fault ω) m]

/-- The comparator that stands for something that cannot be called. -/
def notCallable : Comparator m ω := fun _ _ => throw Fault.illTyped

variable [Objects ω]

/-- The comparator of the natural order. -/
def natural : Comparator m ω := fun a b => MonadExcept.ofExcept (compareNatural a b)

/-- The comparator of the natural order, reversed. -/
def reversedNatural : Comparator m ω := reverse natural

end Leaves

end Comparator

end Arrange
