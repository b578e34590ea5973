import Arrange.Text.CodePoint
import Arrange.Text.Hash
import Arrange.Value.Conversion

/-!
# Values as sequences

What any value has of a sequence: fields, a length, elements in order, and a hash code over its
units. Texts and arrays have them by nature, and an object has those that its fields describe.
-/

set_option autoImplicit false

namespace Arrange.Value

variable {ω : Type} [Objects ω]

/-- The name of the field that tells a length. -/
def lengthField : Text := "length"

/-- What reading a field of a value gives. Values that are neither arrays nor objects have no
fields. -/
def field (v : Value ω) (name : Text) : Value ω :=
  match v with
  | .object o => Objects.field o name
  | .array _ xs =>
      if name = lengthField then .number (Float.ofNat xs.length)
      else (((xs.mapIdx fun i x => (Text.ofNat i, x)).find? (·.1 = name)).map (·.2)).getD .undefined
  | _ => .undefined

/-- The number of units of a text or of elements of an array, and what the field of that name says
for an object. Absent values have no length to read, and that of all others is `undefined`. -/
def length : Value ω → Except (Fault ω) (Value ω)
  | .text t => .ok (.number (Float.ofNat t.length))
  | .array _ xs => .ok (.number (Float.ofNat xs.length))
  | .object o => .ok (Objects.field o lengthField)
  | .undefined => .error .illTyped
  | .null => .error .illTyped
  | _ => .ok .undefined

/-- The greatest number of elements of an array. -/
def maxElements : Nat := Nat.pow 2 32 - 1

/-- The elements of a value taken for a sequence: an array's elements, a text's code points, and the
numbered fields of an object up to its length. Other present values have none. -/
def asSequence : Value ω → Except (Fault ω) (List (Value ω))
  | .array _ xs => .ok xs
  | .text t => .ok ((Text.codePoints t).map .text)
  | .object o => do
      let count := (Number.truncate (← (Objects.field o lengthField).toNumber)).toNat
      if maxElements < count then .error .illTyped
      else return (List.range count).map fun i => Objects.field o (Text.ofNat i)
  | .undefined => .error .illTyped
  | .null => .error .illTyped
  | _ => .ok []

/-- The hash code of a value taken for a text. A value without units has that of the empty text,
and one that has a positive length but is no text is refused. -/
def unitsHash (v : Value ω) : Except (Fault ω) Int32 :=
  match v with
  | .text t => .ok (Text.hash t)
  | v => do
      match ← relate (.number 0) (← v.length) with
      | some .lt => .error .illTyped
      | _ => return Text.hash []

end Arrange.Value
