import Arrange.Comparator.Argument
import Arrange.Sorting.Pile
import Arrange.Sorting.Run

/-!
# Sorting

`Sorting.sort` sorts a list by a test that says whether one element goes before another. It divides
the list into runs, where natural runs that are short are lengthened by insertion, and merges them.
Equal elements keep their order. A list of fewer than 64 elements is a single run.

`sortValues` sorts values by a comparator. The `undefined` ones go to the end and the comparator is
never asked about them.
-/

set_option autoImplicit false

namespace Arrange

namespace Sorting

variable {m : Type → Type} [Monad m] {α : Type}

/-- The runs of a list, of at least `least` elements but for the last one, on a pile of earlier
runs. -/
def pileUp (before : α → α → m Bool) (least : Nat) (pile : Pile α) : List α → m (Pile α)
  | [] => pure pile
  | x :: xs => do
      let natural ← naturalRun before x xs
      let run ← insertAll before (natural.elements x xs)
        ((xs.drop natural.more).take (least - 1 - natural.more))
      let pile ← (pile.push run).settle before
      pileUp before least pile (xs.drop (max natural.more (least - 1)))
termination_by xs => xs.length
decreasing_by simp only [List.length_cons, List.length_drop] ; omega

/-- The list in order. -/
def sort (before : α → α → m Bool) (xs : List α) : m (List α) := do
  let pile ← pileUp before (leastRun xs.length false) Pile.empty xs
  return (← pile.unite before).toList

end Sorting

/-! ## Sorting values -/

section Values

variable {m : Type → Type} {ω : Type} [Monad m] [MonadExceptOf (Fault ω) m] [Objects ω]

/-- Whether a comparator puts the first value before the second: its result, as a number, is
negative. -/
def goesBefore (c : Comparator m ω) (a b : Value ω) : m Bool := do
  let x ← MonadExcept.ofExcept (← c a b).toNumber
  return x < 0

/-- Whether a value is `undefined`. -/
def Value.isUndefined : Value ω → Bool
  | .undefined => true
  | _ => false

/-- The values in the order of a comparator, the `undefined` ones at the end. -/
def sortValues (c : Comparator m ω) (values : List (Value ω)) : m (List (Value ω)) := do
  let sorted ← Sorting.sort (goesBefore c) (values.filter fun v => !v.isUndefined)
  return sorted ++ values.filter Value.isUndefined

/-- The comparator of values by their texts. -/
def byText : Comparator m ω := fun a b => do
  let s ← MonadExcept.ofExcept a.spelledWithin
  let t ← MonadExcept.ofExcept b.spelledWithin
  return .ofOrdering (textOrder s t)

/-- The values sorted by an argument: by their texts when it is `undefined`. No other value can
stand for a comparator, not even where there is nothing to compare. -/
def sortBy (argument : Argument ω (Comparator m ω)) (values : List (Value ω)) :
    m (List (Value ω)) :=
  match argument with
  | .function c => sortValues c values
  | .value .undefined => sortValues byText values
  | .value _ => throw Fault.illTyped

end Values

end Arrange
