import Arrange.Number.Binary
import Arrange.Text.Basic

/-!
# Numbers read from texts

`Number.read?` reads a decimal number with an optional sign, fraction and exponent, `Infinity`, or
a whole number in base 16, 8 or 2 after `0x`, `0o` or `0b`. `Number.readWhole?` reads a whole
number of any size. Blanks around a number are ignored and a blank text is 0.
-/

set_option autoImplicit false

namespace Arrange.Number

/-! ## Characters -/

/-- Blanks: spaces of any width, tabs, line and page ends, and the byte order mark. -/
def isBlank (u : UInt16) : Bool :=
  (0x09 ≤ u && u ≤ 0x0D) || u == 0x20 || u == 0xA0 || u == 0x1680 ||
    (0x2000 ≤ u && u ≤ 0x200A) || u == 0x2028 || u == 0x2029 || u == 0x202F || u == 0x205F ||
    u == 0x3000 || u == 0xFEFF

/-- The text without the blanks at both ends. -/
def trimmed (t : Text) : Text := ((t.dropWhile isBlank).reverse.dropWhile isBlank).reverse

/-- The value of a digit in a base up to 16. -/
def digitValue? (base : Nat) (u : UInt16) : Option Nat :=
  let c := u.toNat
  let value :=
    if 0x30 ≤ c ∧ c ≤ 0x39 then c - 0x30
    else if 0x61 ≤ c ∧ c ≤ 0x66 then c - 0x57
    else if 0x41 ≤ c ∧ c ≤ 0x46 then c - 0x37
    else base
  if value < base then some value else none

/-- The longest run of digits in front: its value, its length and what follows. -/
def digits (base : Nat) (value length : Nat) : Text → Nat × Nat × Text
  | [] => (value, length, [])
  | u :: rest =>
      match digitValue? base u with
      | some d => digits base (base * value + d) (length + 1) rest
      | none => (value, length, u :: rest)

/-! ## The parts of a decimal number -/

/-- A sign in front, and what follows it. -/
def signed : Text → Bool × Text
  | 0x2D :: rest => (true, rest)
  | 0x2B :: rest => (false, rest)
  | t => (false, t)

/-- The exponent that the whole text spells: none at all is 0. -/
def exponent? : Text → Option Int
  | [] => some 0
  | e :: rest =>
      if e = 0x65 ∨ e = 0x45 then
        match signed rest with
        | (negative, t) =>
            match digits 10 0 0 t with
            | (value, length, []) =>
                if length = 0 then none else some (if negative then -(value : Int) else value)
            | _ => none
      else none

/-- The double nearest to `m * 10 ^ e`. -/
def scaled (m : Nat) (e : Int) : Float := Float.ofScientific m (e < 0) e.natAbs

/-- An unsigned decimal number: digits with an optional point, at least one digit in all, and an
optional exponent. -/
def magnitude? (t : Text) : Option Float :=
  if t = Text.ofString "Infinity" then some (1 / 0)
  else
    match digits 10 0 0 t with
    | (whole, before, rest) =>
        match rest with
        | 0x2E :: fraction =>
            match digits 10 whole 0 fraction with
            | (m, after, rest) =>
                if before + after = 0 then none
                else (exponent? rest).map fun e => scaled m (e - after)
        | rest => if before = 0 then none else (exponent? rest).map fun e => scaled whole e

/-- The digits that make up the whole text, as a number in the given base. -/
def wholeDigits? (base : Nat) (t : Text) : Option Nat :=
  match digits base 0 0 t with
  | (value, length, []) => if length = 0 then none else some value
  | _ => none

/-- The double nearest to the whole number that the whole text spells in the given base. -/
def whole? (base : Nat) (t : Text) : Option Float :=
  (wholeDigits? base t).map fun value => scaled value 0

/-- The base that a letter after a leading zero announces. -/
def base? (u : UInt16) : Option Nat :=
  if u = 0x78 ∨ u = 0x58 then some 16
  else if u = 0x6F ∨ u = 0x4F then some 8
  else if u = 0x62 ∨ u = 0x42 then some 2
  else none

/-- A decimal number with an optional sign. -/
def decimal? (t : Text) : Option Float :=
  match signed t with
  | (negative, rest) => (magnitude? rest).map fun x => if negative then -x else x

/-- The number that a text spells, or `none` when it spells none. -/
def read? (t : Text) : Option Float :=
  match trimmed t with
  | [] => some 0
  | 0x30 :: u :: rest =>
      match base? u with
      | some base => whole? base rest
      | none => decimal? (0x30 :: u :: rest)
  | t => decimal? t

/-- A whole decimal number with an optional sign. -/
def decimalWhole? (t : Text) : Option Int :=
  match signed t with
  | (negative, rest) =>
      (wholeDigits? 10 rest).map fun value => if negative then -(value : Int) else value

/-- The whole number of any size that a text spells, or `none` when it spells none. There is no
fraction and no exponent, a blank text is 0, and a number in another base has no sign. -/
def readWhole? (t : Text) : Option Int :=
  match trimmed t with
  | [] => some 0
  | 0x30 :: u :: rest =>
      match base? u with
      | some base => (wholeDigits? base rest).map fun value => (value : Int)
      | none => decimalWhole? (0x30 :: u :: rest)
  | t => decimalWhole? t

end Arrange.Number
