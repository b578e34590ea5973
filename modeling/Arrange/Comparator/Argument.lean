import Arrange.Comparator.Basic

/-!
# Arguments that should be functions

Where a comparator or a key extractor is expected, any value may be given instead. Such an
argument does no harm before it is called. `Argument.requireKey` is for comparators that cannot be
made without a key, and `compareWith` says what its last argument stands for when it is no
comparator.
-/

set_option autoImplicit false

namespace Arrange

/-- An argument in the place of a function of type `φ`: such a function, or some other value. -/
inductive Argument (ω φ : Type) where
  | function (f : φ)
  | value (v : Value ω)

namespace Argument

variable {m : Type → Type} {ω : Type} {φ : Type}

/-- Whether the argument is `null` or `undefined`. -/
def isAbsent : Argument ω φ → Bool
  | .function _ => false
  | .value v => v.isAbsent

variable [Monad m] [MonadExceptOf (Fault ω) m]

/-- The comparator that is called where the argument is called. -/
def comparator : Argument ω (Comparator m ω) → Comparator m ω
  | .function c => c
  | .value _ => Comparator.notCallable

/-- The key extractor that is called where the argument is called. -/
def key : Argument ω (Key m ω) → Key m ω
  | .function k => k
  | .value _ => fun _ => throw Fault.illTyped

/-- The key extractor of a comparator that cannot be made without one. -/
def requireKey (order : KeyedOrder) (argument : Argument ω (Key m ω)) :
    Except (Fault ω) (Key m ω) :=
  if argument.isAbsent then .error (.missingKeyExtractor order) else .ok argument.key

end Argument

/-- The last argument of `compareWith`: a comparator that decides, or a value that is `true` when
absent values are to rank last. -/
abbrev CompareOption (m : Type → Type) (ω : Type) := Argument ω (Comparator m ω)

/-- The comparison by the given comparator, or without one by the natural order with absent values
first, or last when the option is `true`. -/
def compareWith {m : Type → Type} {ω : Type} [Monad m] [MonadExceptOf (Fault ω) m]
    [DecidableEq ω] [Objects ω] (a b : Value ω) (option : CompareOption m ω) : m (Value ω) :=
  match option with
  | .function c => c a b
  | .value v => MonadExcept.ofExcept (compareOptional a b (decide (v = .bool true)))

end Arrange
