import Arrange.Sorting.Merge

/-!
# The pile of runs

The runs of a list are put on a pile one by one, so the newest lies on top, and neighbours on the
pile are neighbours in the list. `Pile.settle` merges runs near the top until each is longer than
the one on it, and longer than the two on it together where there are two. So the pile stays low
and the runs that are merged have like lengths. `Pile.unite` merges all of them.
-/

set_option autoImplicit false

namespace Arrange

namespace Sorting

/-- Runs of a list, the last one on top, and the threshold for the next merge. -/
structure Pile (α : Type) where
  runs : List (List α)
  threshold : Nat

namespace Pile

variable {α : Type}

/-- No runs yet. -/
def empty : Pile α := ⟨[], longRow⟩

/-- The pile with one more run on top. -/
def push (pile : Pile α) (run : List α) : Pile α := { pile with runs := run :: pile.runs }

/-- The elements of all runs in the order of the list. -/
def toList (pile : Pile α) : List α := pile.runs.reverse.flatten

@[simp] theorem toList_empty : (empty : Pile α).toList = [] := rfl

/-- The run that is pushed comes last. -/
@[simp] theorem toList_push (pile : Pile α) (run : List α) :
    (pile.push run).toList = pile.toList ++ run := by
  simp [toList, push]

/-- Whether one of the runs `x` and the one below it, if there is one, is too short for the two
runs on it: `z` lies on `y` and `y` on `x`. -/
def isSteep (z y x : List α) (below : List (List α)) : Bool :=
  x.length ≤ y.length + z.length || below.head?.any fun w => w.length ≤ x.length + y.length

variable {m : Type → Type} [Monad m]

/-- The runs of a pile, the last one first, merged until they are in due proportion, or all of them
when `all` is set. Where three are involved, the middle one is merged with the shorter of its two
neighbours, with the upper one if they are of one length. -/
def join (before : α → α → m Bool) (all : Bool) (threshold : Nat) : List (List α) → m (Pile α)
  | z :: y :: x :: below => do
      let due := all || isSteep z y x below
      if due && x.length < z.length then
        let (run, next) ← merge before threshold x y
        join before all next (z :: run :: below)
      else if due || y.length ≤ z.length then
        let (run, next) ← merge before threshold y z
        join before all next (run :: x :: below)
      else return ⟨z :: y :: x :: below, threshold⟩
  | [z, y] => do
      if all || y.length ≤ z.length then
        let (run, next) ← merge before threshold y z
        return ⟨[run], next⟩
      else return ⟨[z, y], threshold⟩
  | runs => return ⟨runs, threshold⟩
termination_by runs => runs.length

/-- The pile with its runs in due proportion. -/
def settle (before : α → α → m Bool) (pile : Pile α) : m (Pile α) :=
  join before false pile.threshold pile.runs

/-- The pile with all runs merged into one. -/
def unite (before : α → α → m Bool) (pile : Pile α) : m (Pile α) :=
  join before true pile.threshold pile.runs

end Pile

end Sorting

end Arrange
