import Arrange.Comparator.Argument

/-!
# Comparator expressions

A comparator expression is a tree: comparators of any origin at the leaves, and the ways to make
new comparators inside. `Expression.comparator` is the comparator that a tree denotes. The
functions `Expression.ofReverse`, `Expression.ofOnKey` and `Expression.ofInTurn` build
trees from arguments that may be missing.
-/

set_option autoImplicit false

namespace Arrange

/-- A comparator built from comparators. -/
inductive Expression (m : Type → Type) (ω : Type) where
  | leaf (c : Comparator m ω)
  | reverse (e : Expression m ω)
  | absentFirst (e : Expression m ω)
  | absentLast (e : Expression m ω)
  | onKey (key : Key m ω) (e : Expression m ω)
  | inTurn (first : Expression m ω) (rest : List (Expression m ω))

namespace Expression

variable {m : Type → Type} {ω : Type}

section Meaning

variable [Monad m]

mutual

/-- The comparator that an expression denotes. -/
def comparator : Expression m ω → Comparator m ω
  | leaf c => c
  | reverse e => Comparator.reverse e.comparator
  | absentFirst e => Comparator.absentFirst e.comparator
  | absentLast e => Comparator.absentLast e.comparator
  | onKey key e => Comparator.onKey key e.comparator
  | inTurn first rest => Comparator.inTurn first.comparator (comparators rest)

/-- The comparators that a list of expressions denotes. -/
def comparators : List (Expression m ω) → List (Comparator m ω)
  | [] => []
  | e :: rest => e.comparator :: comparators rest

end

end Meaning

/-! ## Arguments that may be missing -/

section Building

variable [Monad m] [MonadExceptOf (Fault ω) m]

/-- The expression for an argument, failing when it is called unless it is an expression. -/
def ofArgument : Argument ω (Expression m ω) → Expression m ω
  | .function e => e
  | .value _ => leaf Comparator.notCallable

/-- The reverse of an argument; without one, the reverse of the natural order. -/
def ofReverse [Objects ω] (argument : Argument ω (Expression m ω)) : Expression m ω :=
  if argument.isAbsent then leaf Comparator.reversedNatural else reverse (ofArgument argument)

/-- The comparison of keys by an argument; without one by the natural order. Only `undefined` is no
argument here. -/
def ofOnKey [Objects ω] (key : Argument ω (Key m ω)) (order : Argument ω (Expression m ω)) :
    Expression m ω :=
  match order with
  | .value .undefined => onKey key.key (leaf Comparator.natural)
  | argument => onKey key.key (ofArgument argument)

/-- The arguments in turn, each for the ties of those before; no argument at all cannot be
called. -/
def ofInTurn : List (Argument ω (Expression m ω)) → Expression m ω
  | [] => leaf Comparator.notCallable
  | first :: rest => inTurn (ofArgument first) (rest.map ofArgument)

end Building

end Expression

end Arrange
