import Arrange.Number.Binary
import Arrange.Value.Basic

/-!
# Partition sizes

The greatest number of elements in a partition: a whole number from 1 on, of any magnitude.
`PartitionSize.check` takes it from any value and says what is wrong with other values.
-/

set_option autoImplicit false

namespace Arrange

/-- What is wrong with a value that is no partition size. -/
inductive SizeIssue where
  /-- The value is no number, or not a whole one. -/
  | invalidType
  /-- The number is below 1. -/
  | tooSmall
deriving DecidableEq

/-- An issue as it is written. -/
def SizeIssue.text : SizeIssue → Text
  | invalidType => "invalid_type"
  | tooSmall => "too_small"

/-- A number of elements, at least one. -/
structure PartitionSize where
  toNat : Nat
  pos : 0 < toNat

namespace PartitionSize

variable {ω : Type}

/-- What is wrong with a double as a partition size. -/
def issues (x : Float) : List SizeIssue :=
  if x.isNaN then [.invalidType]
  else
    (if Number.isInteger x then [] else [.invalidType]) ++ (if x < 1 then [.tooSmall] else [])

/-- The partition size that a value is, or all that is wrong with it. -/
def check (v : Value ω) : Except (List SizeIssue) PartitionSize :=
  match v with
  | .number x =>
      match issues x with
      | [] =>
          let n := (Number.truncate x).toNat
          if h : 0 < n then .ok ⟨n, h⟩ else .error [.tooSmall]
      | found => .error found
  | _ => .error [.invalidType]

/-- The partition size that a value is. -/
def ofValue (v : Value ω) : Except (Fault ω) PartitionSize :=
  match check v with
  | .ok size => .ok size
  | .error _ => .error (.invalidPartitionSize v)

end PartitionSize

end Arrange
