import Arrange.Sorting
import Arrange.Value.Alike

/-!
# Checks of the comparator contract

A comparator should give zero for a value and itself, opposite signs for a pair and its reverse,
and be transitive. Each check here tries one of these laws on sample values and gives the first
violation it meets; `checkSortsAs` tries what sorting gives.
-/

set_option autoImplicit false

namespace Arrange

/-- What broke the contract: the positions of the samples concerned, or the outcome of sorting. -/
inductive Violation where
  | single (i : Nat)
  | pair (i j : Nat)
  | triple (i j k : Nat)
  | sorting
deriving DecidableEq

/-- The words for a violation; a wrong outcome of sorting has none. -/
def Violation.label? : Violation → Option Text
  | single i =>
      some (Text.ofString "sample " ++ Text.ofNat i ++ Text.ofString " compared with itself")
  | pair i j =>
      some (Text.ofString "samples " ++ Text.ofNat i ++ Text.ofString " and " ++ Text.ofNat j)
  | triple i j k =>
      some (Text.ofString "samples " ++ Text.join ", " [Text.ofNat i, Text.ofNat j, Text.ofNat k])
  | sorting => none

/-! ## Walking over samples -/

section Walk

variable {m : Type → Type} [Monad m] {α : Type}

/-- The first violation that a check finds among samples, the first of which stands at `i`. -/
def firstViolation (check : Nat → α → m (Option Violation)) (i : Nat) :
    List α → m (Option Violation)
  | [] => pure none
  | a :: rest => do
      match ← check i a with
      | some violation => return some violation
      | none => firstViolation check (i + 1) rest

end Walk

section Checks

variable {m : Type → Type} {ω : Type} [Monad m] [MonadExceptOf (Fault ω) m] [Objects ω]

/-- The sign of a result: below, at or above zero; what stands nowhere counts as at zero. -/
def signOfResult (result : Value ω) : Except (Fault ω) Ordering :=
  result.compareZero.map (·.getD .eq)

/-- The sign of a comparison. -/
def signOfComparison (c : Comparator m ω) (a b : Value ω) : m Ordering := do
  MonadExcept.ofExcept (signOfResult (← c a b))

/-- Whether a comparison is above zero. -/
def isAbove (c : Comparator m ω) (a b : Value ω) : m Bool := do
  let standing ← MonadExcept.ofExcept (← c a b).compareZero
  return standing == some .gt

/-- Whether a number, of either kind, is at most zero. Other values are refused. -/
def isAtMostZero : Value ω → Except (Fault ω) Bool
  | .number x => .ok (x ≤ 0)
  | .bigint n => .ok (n ≤ 0)
  | _ => .error .illTyped

/-- Every sample compared with itself gives zero. -/
def checkReflexive (c : Comparator m ω) (samples : List (Value ω)) : m (Option Violation) :=
  firstViolation (fun i a => do
    return if (← signOfComparison c a a) = .eq then none else some (.single i)) 0 samples

/-- Every pair compared both ways gives opposite signs. -/
def checkAntisymmetric (c : Comparator m ω) (samples : List (Value ω)) : m (Option Violation) :=
  firstViolation (fun i a =>
    firstViolation (fun j b => do
      let forward ← signOfComparison c a b
      let backward ← signOfComparison c b a
      return if forward = backward.swap then none else some (.pair i j)) 0 samples) 0 samples

/-- Unless a first sample is above a second or that one above a third, the first is at most the
third. -/
def checkTransitive (c : Comparator m ω) (samples : List (Value ω)) : m (Option Violation) :=
  firstViolation (fun i a =>
    firstViolation (fun j b => do
      if ← isAbove c a b then return none
      firstViolation (fun k d => do
        if ← isAbove c b d then return none
        let result ← c a d
        return if ← MonadExcept.ofExcept (isAtMostZero result) then none
          else some (.triple i j k)) 0 samples) 0 samples) 0 samples

/-- All three laws, one after the other. -/
def checkContract (c : Comparator m ω) (samples : List (Value ω)) : m (Option Violation) := do
  match ← checkReflexive c samples with
  | some violation => return some violation
  | none =>
      match ← checkAntisymmetric c samples with
      | some violation => return some violation
      | none => checkTransitive c samples

/-! ## The outcome of sorting -/

section Sorted

variable [DecidableEq ω]

/-- Sorting the samples by an argument gives a list that looks like the expected one. The samples
stay as they are. -/
def checkSortsAs (argument : Argument ω (Comparator m ω)) (samples expected : List (Value ω)) :
    m (Option Violation) := do
  let sorted ← sortBy argument samples
  return if Value.elementsLookAlike Objects.alike sorted expected then none else some .sorting

end Sorted

end Checks

end Arrange
