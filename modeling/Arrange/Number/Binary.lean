/-!
# Numbers taken apart

A finite double is a sign, a mantissa and a power of two (`Number.parts`). From these the whole
part (`Number.truncate`), the test for an integer and the wrap into 32 bits are exact integer
arithmetic.
-/

set_option autoImplicit false

namespace Arrange.Number

/-- A finite double: `mantissa * 2 ^ exponent`, negated when `negative` holds. -/
structure Parts where
  negative : Bool
  mantissa : Nat
  exponent : Int

/-- The sign, mantissa and exponent that the bits of a finite double spell. The mantissa of a
normal number has an implicit leading bit, that of a subnormal number has none. -/
def parts (x : Float) : Parts :=
  let bits : Nat := x.toBits.toNat
  let biased : Nat := bits / Nat.pow 2 52 % Nat.pow 2 11
  let fraction : Nat := bits % Nat.pow 2 52
  if biased = 0 then ⟨bits / Nat.pow 2 63 = 1, fraction, -1074⟩
  else ⟨bits / Nat.pow 2 63 = 1, Nat.pow 2 52 + fraction, (biased : Int) - 1075⟩

/-- The negative one of the two zeros. -/
def isNegativeZero (x : Float) : Bool := decide (x = -0)

/-- The whole part, cut toward zero; 0 for an infinity and for NaN. -/
def truncate (x : Float) : Int :=
  if x.isFinite then
    let p := parts x
    let magnitude :=
      if 0 ≤ p.exponent then p.mantissa * Nat.pow 2 p.exponent.toNat
      else p.mantissa / Nat.pow 2 (-p.exponent).toNat
    if p.negative then -(magnitude : Int) else magnitude
  else 0

/-- Whether a double is a finite whole number. -/
def isInteger (x : Float) : Bool :=
  x.isFinite &&
    let p := parts x
    decide (0 ≤ p.exponent) || p.mantissa % Nat.pow 2 (-p.exponent).toNat == 0

/-- The whole part modulo `2 ^ 32`, as a signed 32-bit word. -/
def wrap32 (x : Float) : Int32 := Int32.ofInt (truncate x)

/-- The double nearest to an integer. -/
def ofInt (n : Int) : Float := Float.ofInt n

/-- NaN, the one value of this type that is not a number. -/
def nan : Float := 0 / 0

end Arrange.Number
