import Arrange.Text.Basic

/-!
# Values

The values that are compared, sorted and partitioned: the two absent ones, truth values, doubles,
whole numbers of any size, texts, symbols, arrays and objects. What an object is stays open. The
type of objects is a parameter `ω`, and the class `Objects ω` says what an object shows of itself
and which methods it has.

Arrays and symbols carry a number that tells apart two of the same content, so that two values are
the same thing exactly when they are equal; `Value.same` decides it.
-/

set_option autoImplicit false

namespace Arrange

/-! ## Values -/

/-- A value over objects of type `ω`. -/
inductive Value (ω : Type) where
  | undefined
  | null
  | bool (b : Bool)
  | number (x : Float)
  | bigint (n : Int)
  | text (t : Text)
  /-- A symbol: the number that makes it unique, and its description. -/
  | symbol (serial : Nat) (description : Text)
  /-- An array: the number that makes it unique, and its elements. -/
  | array (serial : Nat) (elements : List (Value ω))
  | object (o : ω)

namespace Value

variable {ω : Type}

instance : Inhabited (Value ω) := ⟨.undefined⟩

/-- `null` and `undefined` are absent, everything else is present. -/
def isAbsent : Value ω → Bool
  | .undefined => true
  | .null => true
  | _ => false

/-- The number -1, 0 or 1 for an outcome of a comparison. -/
def ofOrdering : Ordering → Value ω
  | .lt => .number (-1)
  | .eq => .number 0
  | .gt => .number 1

/-! ## Being the same value -/

section Same

variable [DecidableEq ω]

mutual

/-- Whether two values are the same: numbers bit by bit, so that NaN is itself and 0 is not -0;
texts and whole numbers by content; symbols, arrays and objects by identity. -/
def same : Value ω → Value ω → Bool
  | .undefined, .undefined => true
  | .null, .null => true
  | .bool b, .bool c => b == c
  | .number x, .number y => decide (x = y)
  | .bigint m, .bigint n => m == n
  | .text s, .text t => s == t
  | .symbol i s, .symbol j t => i == j && s == t
  | .array i xs, .array j ys => i == j && sameElements xs ys
  | .object o, .object p => decide (o = p)
  | _, _ => false

/-- Whether two lists hold the same values in the same places. -/
def sameElements : List (Value ω) → List (Value ω) → Bool
  | [], [] => true
  | x :: xs, y :: ys => same x y && sameElements xs ys
  | _, _ => false

end

mutual

theorem same_iff (a b : Value ω) : same a b = true ↔ a = b := by
  match a with
  | .undefined => cases b <;> simp [same]
  | .null => cases b <;> simp [same]
  | .bool _ => cases b <;> simp [same]
  | .number _ => cases b <;> simp [same]
  | .bigint _ => cases b <;> simp [same]
  | .text _ => cases b <;> simp [same]
  | .symbol _ _ => cases b <;> simp [same]
  | .array i xs =>
      cases b with
      | array j ys => simp [same, sameElements_iff xs ys]
      | _ => simp [same]
  | .object _ => cases b <;> simp [same]

theorem sameElements_iff (xs ys : List (Value ω)) : sameElements xs ys = true ↔ xs = ys := by
  match xs with
  | [] => cases ys <;> simp [sameElements]
  | x :: xs =>
      cases ys with
      | nil => simp [sameElements]
      | cons y ys => simp [sameElements, same_iff x y, sameElements_iff xs ys]

end

instance : DecidableEq (Value ω) := fun a b => decidable_of_iff _ (same_iff a b)

/-- Whether two values are the same as keys of a look-up: as `same`, but 0 and -0 are one key. -/
def sameKey (a b : Value ω) : Bool :=
  match a, b with
  | .number x, .number y => x == y || decide (x = y)
  | _, _ => same a b

/-- Whether two values are equal without any conversion: doubles numerically, so that NaN differs
from itself, and all else by being the same value. -/
def strictlyEquals (a b : Value ω) : Bool :=
  match a, b with
  | .number x, .number y => x == y
  | _, _ => same a b

end Same

end Value

/-! ## Faults -/

/-- The two families of comparators that are made from a key extractor and cannot do without. -/
inductive KeyedOrder where
  | reference
  | pinyin
deriving DecidableEq

/-- Why an operation failed. -/
inductive Fault (ω : Type) where
  /-- Two present values have no natural order in common. -/
  | notComparable (left right : Value ω)
  /-- A comparator was to be made from a key extractor that is absent. -/
  | missingKeyExtractor (order : KeyedOrder)
  /-- A partition was to hold a number of elements that is not a whole number from 1 on. -/
  | invalidPartitionSize (size : Value ω)
  /-- A partition was requested after the last one; so many had been handed out. -/
  | noPartitionsRemain (handedOut : Nat)
  /-- A value does not have what was done with it: it was called, read, iterated or converted. -/
  | illTyped
  /-- A function of the caller failed with this message. -/
  | raised (message : Text)

/-! ## Objects -/

/-- The three forms of objects. -/
inductive Form where
  | plain
  | function
  /-- A date: its time in milliseconds from the start of 1970, NaN when it is invalid. -/
  | date (time : Float)

/-- What objects show of themselves. A method is `none` when it is missing or not callable. -/
class Objects (ω : Type) where
  form : ω → Form
  /-- The object's own order: called with the other value. -/
  ownOrder? : ω → Option (Value ω → Except (Fault ω) (Value ω))
  /-- The object's own equality: called with the other value. -/
  ownEquality? : ω → Option (Value ω → Except (Fault ω) (Value ω))
  /-- The object's own hash code. -/
  ownHash? : ω → Option (Except (Fault ω) (Value ω))
  /-- The object's conversion to a text. -/
  ownText? : ω → Option (Except (Fault ω) (Value ω))
  /-- The object's conversion to a number. -/
  ownNumber? : ω → Option (Except (Fault ω) (Value ω))
  /-- What reading a field of the object gives, `undefined` when it has no such field. -/
  field : ω → Text → Value ω
  /-- Whether two objects look the same. -/
  alike : ω → ω → Bool
  /-- The tag that stands for an object whose conversion to a text fails. -/
  tag : ω → Text
  /-- The name of the object's type, which need not be a text. -/
  typeName : ω → Value ω
  /-- The code of a coded error, `none` for any other object. -/
  errorCode? : ω → Option Text

end Arrange
