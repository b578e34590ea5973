import Arrange.Number.Binary
import Arrange.Text.Basic

/-!
# The shortest decimal of a number

`Decimal.shortest` is the decimal with the fewest significant digits among those that read back
as the same double, and of those the nearest one. `Number.spelled` writes it: positionally from
`1e-6` up to below `1e21`, with an exponent elsewhere.
-/

set_option autoImplicit false

namespace Arrange

/-- The decimal `digits * 10 ^ exponent`. -/
structure Decimal where
  digits : Nat
  exponent : Int

namespace Decimal

/-! ## The interval that rounds to a double

All reals that round to the positive double `m * 2 ^ q` lie between two midpoints. In units of
`2 ^ (q - 2)` the double is `4 * m`, the upper midpoint `4 * m + 2` and the lower one `4 * m - 2`,
or `4 * m - 1` where the spacing below is half the spacing above. The ends belong to the interval
when `m` is even. -/

/-- An interval of reals around a double, with all three values over one denominator. -/
structure Interval where
  low : Nat
  value : Nat
  high : Nat
  denominator : Nat
  closed : Bool

/-- The reals that round to the double with mantissa `m` and exponent `q`. -/
def Interval.around (m : Nat) (q : Int) : Interval :=
  let below := if m = Nat.pow 2 52 ∧ -1074 < q then 1 else 2
  let scale := Nat.pow 2 (q - 2).toNat
  ⟨(4 * m - below) * scale, 4 * m * scale, (4 * m + 2) * scale, Nat.pow 2 (2 - q).toNat, m % 2 = 0⟩

/-- Whether the fraction `n / d` lies in the interval. -/
def Interval.contains (i : Interval) (n d : Nat) : Bool :=
  let x := n * i.denominator
  if i.closed then i.low * d ≤ x && x ≤ i.high * d else i.low * d < x && x < i.high * d

/-! ## The search by number of digits -/

/-- The number of digits before the decimal point; for a value below 1 the number of zeros right
after the point, negated. -/
def Interval.magnitude (i : Interval) : Int :=
  (Nat.toDigits 10 (i.value * Nat.pow 10 400 / i.denominator)).length - 400

/-- The decimal of the grid `10 ^ unit` that lies in the interval and is nearest to its value; of
two equally near ones the even one. -/
def Interval.onGrid? (i : Interval) (unit : Int) : Option Decimal :=
  let up := Nat.pow 10 unit.toNat
  let down := Nat.pow 10 (-unit).toNat
  let n := i.value * down
  let d := i.denominator * up
  let below := n / d
  let above := below + 1
  let belowFits := i.contains (below * up) down
  let aboveFits := i.contains (above * up) down
  let rest := n % d
  if belowFits && aboveFits then
    if 2 * rest < d || (2 * rest == d && below % 2 == 0) then some ⟨below, unit⟩
    else some ⟨above, unit⟩
  else if belowFits then some ⟨below, unit⟩
  else if aboveFits then some ⟨above, unit⟩
  else none

/-- The first grid with a decimal in the interval, from the one at `unit` downwards; the value is
taken as it is on the last one. -/
def Interval.search (i : Interval) (unit : Int) : Nat → Decimal
  | 0 => ⟨i.value * Nat.pow 10 (-unit).toNat / (i.denominator * Nat.pow 10 unit.toNat), unit⟩
  | grids + 1 =>
      match i.onGrid? unit with
      | some decimal => decimal
      | none => i.search (unit - 1) grids

/-- The decimal of the fewest digits that rounds to the double `m * 2 ^ q`. Seventeen digits are
always enough. -/
def shortest (m : Nat) (q : Int) : Decimal :=
  let i := Interval.around m q
  i.search (i.magnitude - 1) 17

/-- The decimal without the zeros at its end. -/
def stripZeros (digits : Nat) (exponent : Int) : Nat → Decimal
  | 0 => ⟨digits, exponent⟩
  | fuel + 1 =>
      if digits % 10 = 0 then stripZeros (digits / 10) (exponent + 1) fuel else ⟨digits, exponent⟩

/-! ## Spelling -/

/-- As many zeros. -/
def zeros (n : Nat) : Text := List.replicate n 0x30

/-- The text of a positive decimal. With `k` digits of which `point` stand before the decimal
point it is positional for `-6 < point ≤ 21`, and has one digit before the point and an exponent
elsewhere. -/
def spelled (decimal : Decimal) : Text :=
  let digits := Text.ofNat decimal.digits
  let k := digits.length
  let point : Int := decimal.exponent + k
  if (k : Int) ≤ point ∧ point ≤ 21 then digits ++ zeros (point.toNat - k)
  else if 0 < point ∧ point ≤ 21 then
    digits.take point.toNat ++ Text.ofString "." ++ digits.drop point.toNat
  else if -6 < point ∧ point ≤ 0 then
    Text.ofString "0." ++ zeros (-point).toNat ++ digits
  else
    let power := point - 1
    let fraction := if k = 1 then [] else Text.ofString "." ++ digits.drop 1
    let sign := if 0 ≤ power then "+" else "-"
    digits.take 1 ++ fraction ++ Text.ofString "e" ++ Text.ofString sign ++
      Text.ofNat power.natAbs

end Decimal

namespace Number

/-- The text of a double other than a negative number: both zeros are `0`. -/
def spelledMagnitude (x : Float) : Text :=
  if x.isNaN then Text.ofString "NaN"
  else if x.isInf then Text.ofString "Infinity"
  else
    let p := parts x
    if p.mantissa = 0 then Text.ofString "0"
    else
      let decimal := Decimal.shortest p.mantissa p.exponent
      (Decimal.stripZeros decimal.digits decimal.exponent 20).spelled

/-- The text of a double: the shortest decimal that reads back, after a minus sign when the number
is negative. Both zeros are written `0`. -/
def spelled (x : Float) : Text :=
  if x < 0 then Text.ofString "-" ++ spelledMagnitude x else spelledMagnitude x

end Number

end Arrange
