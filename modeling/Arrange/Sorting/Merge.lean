import Arrange.Sorting.Search

/-!
# Merging two runs

`merge` makes one run of two neighbouring ones. Of two equal elements the left one stays in front.

The elements of the left run that stay in front and those of the right run that stay behind are
found first. What is left is merged from the side of the shorter run, pair by pair. When one run
has given many elements in a row, the merge takes leaps instead: it searches for how many elements
of each run come next, and goes on in that manner while the leaps are long.

How many elements in a row lead to leaps is the threshold. Leaps that are long enough to go on
lower it, leaps that are not raise it, and each merge hands it on to the next one.
-/

set_option autoImplicit false

namespace Arrange

namespace Sorting

variable {m : Type → Type} [Monad m] {α : Type}

/-! ## Ways of going on -/

/-- How many elements in a row lead to leaps at first, and how many a leap has to take for the next
one to follow. -/
def longRow : Nat := 7

/-- What has happened last in a merge. -/
inductive Progress where
  /-- Pairs were compared, and so many elements in a row came from the left or the right run. -/
  | pairs (left right : Nat)
  /-- A leap took so many elements from the left run, and the right run is next. -/
  | leftLeap (left : Nat)
  /-- Leaps took so many elements from the left and the right run. -/
  | leaps (left right : Nat)
deriving DecidableEq

/-- What a merge does next. -/
inductive Move where
  /-- Compare a pair, after so many elements in a row from the left or the right run. -/
  | pair (left right : Nat)
  /-- Take a leap in the left run. -/
  | leapLeft
  /-- Take a leap in the right run, after one of so many elements in the left run. -/
  | leapRight (left : Nat)
deriving DecidableEq

/-- The next move of a merge and the new threshold. -/
def Progress.next (threshold : Nat) : Progress → Move × Nat
  | pairs left right =>
      if threshold ≤ max left right then (.leapLeft, threshold) else (.pair left right, threshold)
  | leftLeap left => (.leapRight left, threshold)
  | leaps left right =>
      if longRow ≤ max left right then (.leapLeft, max 1 (threshold - 1))
      else (.pair 0 0, threshold + 1)

/-! ## Merging from one side -/

/-- Whether `a` of the left run is taken rather than `b` of the right run. From the front that is
so unless `b` goes before `a`, from the back if it does. -/
def Side.takesLeft (side : Side) (before : α → α → m Bool) (a b : α) : m Bool := do
  return (← before b a) == (side == .back)

/-- Whether the run that is kept for the end, which is the left one from the front and the right
one from the back, is down to one element; `as` and `bs` are what stands behind the first elements
of the two runs. -/
def Side.isClosing : Side → List α → List α → Bool
  | front, as, _ => as.isEmpty
  | back, _, bs => bs.isEmpty

/-- The two runs one after the other, the one that is kept for the end last. -/
def Side.closing : Side → List α → List α → List α
  | front, as, bs => bs ++ as
  | back, as, bs => as ++ bs

/-- The elements of both runs in the order in which they are met from one side, and the threshold
for the next merge. Each run is given in that order too. No element of the run that is kept for the
end is compared when it is the only one left, for it is known to come last. -/
def mergeFrom (side : Side) (before : α → α → m Bool) (progress : Progress) (threshold : Nat) :
    List α → List α → m (List α × Nat)
  | [], bs => pure (bs, threshold)
  | as, [] => pure (as, threshold)
  | a :: as, b :: bs =>
      if side.isClosing as bs then pure (side.closing (a :: as) (b :: bs), threshold)
      else match progress.next threshold with
      | (.pair left right, threshold) => do
          if ← side.takesLeft before a b then
            let (merged, next) ←
              mergeFrom side before (.pairs (left + 1) 0) threshold as (b :: bs)
            return (a :: merged, next)
          else
            let (merged, next) ←
              mergeFrom side before (.pairs 0 (right + 1)) threshold (a :: as) bs
            return (b :: merged, next)
      | (.leapLeft, threshold) => do
          let k ← leading side (fun x => side.takesLeft before x b) (a :: as)
          let (merged, next) ←
            mergeFrom side before (.leftLeap k) threshold ((a :: as).drop k) bs
          return ((a :: as).take k ++ b :: merged, next)
      | (.leapRight left, threshold) => do
          let k ← leading side (fun x => do return !(← side.takesLeft before a x)) (b :: bs)
          let (merged, next) ←
            mergeFrom side before (.leaps left k) threshold as ((b :: bs).drop k)
          return ((b :: bs).take k ++ a :: merged, next)
termination_by as bs => as.length + bs.length
decreasing_by all_goals simp only [List.length_cons, List.length_drop] ; omega

/-! ## The whole merge -/

/-- Two runs merged, where the first element of the right run goes before that of the left one and
the last element of the right run goes before that of the left one. So the right run holds the
first element of all and the left run the last one, and neither is compared again. -/
def mergeOverlap (before : α → α → m Bool) (threshold : Nat) (as bs : List α) :
    m (List α × Nat) :=
  if as.length ≤ bs.length then
    match bs with
    | [] => pure (as, threshold)
    | b :: bs => do
        let (merged, next) ← mergeFrom .front before (.pairs 0 0) threshold as bs
        return (b :: merged, next)
  else
    match as.reverse with
    | [] => pure (bs, threshold)
    | a :: as => do
        let (merged, next) ← mergeFrom .back before (.pairs 0 0) threshold as bs.reverse
        return ((a :: merged).reverse, next)

/-- Two neighbouring runs merged, and the threshold for the next merge. -/
def merge (before : α → α → m Bool) (threshold : Nat) (as bs : List α) : m (List α × Nat) :=
  match bs.head? with
  | none => pure (as, threshold)
  | some first => do
      let k ← leading .front (fun x => Side.front.takesLeft before x first) as
      match (as.drop k).getLast? with
      | none => pure (as ++ bs, threshold)
      | some last => do
          let l ← leading .back
            (fun x => do return !(← Side.back.takesLeft before last x)) bs.reverse
          let (merged, next) ←
            mergeOverlap before threshold (as.drop k) (bs.take (bs.length - l))
          return (as.take k ++ merged ++ bs.drop (bs.length - l), next)

end Sorting

end Arrange
