import Arrange.Calendar
import Arrange.Number.Decimal
import Arrange.Text.Quoted
import Arrange.Value.Basic

/-!
# Values as texts

`Value.spelled` is the text of a value. It can fail: an object may lack a conversion, or have one
that fails or does not give a primitive, and an array may hold such an object or a symbol.
`Value.described` is the text of a value in a message; it never fails, for where there is no other
text it shows the tag of the value.
-/

set_option autoImplicit false

namespace Arrange.Value

variable {ω : Type}

/-! ## Primitives -/

/-- The text of a truth value. -/
def boolText (b : Bool) : Text := if b then "true" else "false"

/-- The text of a primitive value inside another text. A symbol has none there, and arrays and
objects are no primitives. -/
def primitiveText? : Value ω → Option Text
  | .undefined => some "undefined"
  | .null => some "null"
  | .bool b => some (boolText b)
  | .number x => some (Number.spelled x)
  | .bigint n => some (Text.ofInt n)
  | .text t => some t
  | .symbol _ _ => none
  | .array _ _ => none
  | .object _ => none

/-- Whether a value is neither an array nor an object. -/
def isPrimitive : Value ω → Bool
  | .array _ _ => false
  | .object _ => false
  | _ => true

/-! ## Arrays and objects -/

section Objects

variable [Objects ω]

/-- The first primitive value that conversions give, tried one after another. A conversion that is
missing, or that gives an array or an object, is passed over; one that fails ends the search. -/
def firstPrimitive : List (Option (Except (Fault ω) (Value ω))) → Except (Fault ω) (Value ω)
  | [] => .error .illTyped
  | none :: rest => firstPrimitive rest
  | some (.error fault) :: _ => .error fault
  | some (.ok v) :: rest => if v.isPrimitive then .ok v else firstPrimitive rest

/-- The primitive value that stands for an object in a text: by its conversion to a text, else by
the one to a number. -/
def objectAsText (o : ω) : Except (Fault ω) (Value ω) :=
  firstPrimitive [Objects.ownText? o, Objects.ownNumber? o]

/-- The text of an object. An object that is converted to a symbol has none. -/
def objectText (o : ω) : Except (Fault ω) Text :=
  match objectAsText o with
  | .error fault => .error fault
  | .ok v =>
      match v.primitiveText? with
      | some t => .ok t
      | none => .error .illTyped

mutual

/-- The text of a value inside another text. -/
def spelledWithin : Value ω → Except (Fault ω) Text
  | .undefined => .ok "undefined"
  | .null => .ok "null"
  | .bool b => .ok (boolText b)
  | .number x => .ok (Number.spelled x)
  | .bigint n => .ok (Text.ofInt n)
  | .text t => .ok t
  | .symbol _ _ => .error .illTyped
  | .array _ xs => (elementTexts xs).map (Text.join ",")
  | .object o => objectText o

/-- The texts of the elements of an array; an absent element has the empty text. -/
def elementTexts : List (Value ω) → Except (Fault ω) (List Text)
  | [] => .ok []
  | x :: xs =>
      match if x.isAbsent then .ok [] else spelledWithin x with
      | .error fault => .error fault
      | .ok t => (elementTexts xs).map (t :: ·)

end

/-- The text of a value. A symbol shows its description. -/
def spelled : Value ω → Except (Fault ω) Text
  | .symbol _ d => .ok (Text.ofString "Symbol(" ++ d ++ Text.ofString ")")
  | v => spelledWithin v

/-! ## Tags and descriptions -/

/-- The tag of a value, between brackets. -/
def tagText (v : Value ω) : Text :=
  let tag : Text :=
    match v with
    | .undefined => "Undefined"
    | .null => "Null"
    | .bool _ => "Boolean"
    | .number _ => "Number"
    | .bigint _ => "BigInt"
    | .text _ => "String"
    | .symbol _ _ => "Symbol"
    | .array _ _ => "Array"
    | .object o => Objects.tag o
  Text.ofString "[object " ++ tag ++ Text.ofString "]"

/-- The text of a value, or its tag where it has no text. -/
def spelledOrTag (v : Value ω) : Text :=
  match spelled v with
  | .ok t => t
  | .error _ => tagText v

/-- A value in a message: a text is quoted, a whole number of any size ends in `n`, and the rest is
spelled. -/
def described : Value ω → Text
  | .text t => Text.quoted t
  | .bigint n => Text.ofInt n ++ Text.ofString "n"
  | v => spelledOrTag v

/-! ## Kinds -/

/-- The name of a value's primitive kind, `object` or `function`. -/
def kindName : Value ω → Text
  | .undefined => "undefined"
  | .null => "object"
  | .bool _ => "boolean"
  | .number _ => "number"
  | .bigint _ => "bigint"
  | .text _ => "string"
  | .symbol _ _ => "symbol"
  | .array _ _ => "object"
  | .object o =>
      match Objects.form o with
      | .function => "function"
      | _ => "object"

/-- The kind of a value as reported when two values cannot be compared: of an object the name of
its type, of everything else a fixed name. -/
def reportedKind (v : Value ω) : Value ω :=
  match v with
  | .null => .text "null"
  | .array _ _ => .text "Array"
  | .object o =>
      match Objects.form o with
      | .date _ => .text "Date"
      | .function => .text "function"
      | .plain => Objects.typeName o
  | _ => .text (kindName v)

/-- The text under which a value is looked up in a table. A symbol, or an object that is converted
to one, is no text and found in no table. -/
def lookUpText? : Value ω → Except (Fault ω) (Option Text)
  | .symbol _ _ => .ok none
  | .object o => (objectAsText o).map primitiveText?
  | v => (spelledWithin v).map some

end Objects

end Arrange.Value
