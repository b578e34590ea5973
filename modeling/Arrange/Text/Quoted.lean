import Arrange.Text.Basic

/-!
# Quoted texts

`Text.quoted` writes a text between double quotes. A double quote, a backslash and the five
controls with a letter of their own get a short escape; any other unit below `0x20`, and a
surrogate that stands alone, is written as a backslash, the letter u and four lowercase
hexadecimal digits; everything else stands for itself.
-/

set_option autoImplicit false

namespace Arrange.Text

/-- The double quote. -/
def quoteMark : UInt16 := 0x22

/-- The backslash, which opens every escape. -/
def backslash : UInt16 := 0x5C

/-- A lowercase hexadecimal digit. -/
def hexDigit (n : Nat) : UInt16 :=
  if n < 10 then (0x30 + n).toUInt16 else (0x61 + (n - 10)).toUInt16

/-- The escape of a unit by its four hexadecimal digits. -/
def hexEscape (u : UInt16) : Text :=
  [backslash, 0x75, hexDigit (u.toNat / 0x1000), hexDigit (u.toNat / 0x100 % 0x10),
    hexDigit (u.toNat / 0x10 % 0x10), hexDigit (u.toNat % 0x10)]

/-- The letter of a unit that has a short escape. -/
def shortEscape? (u : UInt16) : Option UInt16 :=
  if u = 0x08 then some 0x62
  else if u = 0x09 then some 0x74
  else if u = 0x0A then some 0x6E
  else if u = 0x0C then some 0x66
  else if u = 0x0D then some 0x72
  else if u = quoteMark then some quoteMark
  else if u = backslash then some backslash
  else none

/-- How a unit that is not a surrogate is written between quotes. -/
def escapeUnit (u : UInt16) : Text :=
  match shortEscape? u with
  | some letter => [backslash, letter]
  | none => if u < 0x20 then hexEscape u else [u]

/-- What stands between the quotes. -/
def escaped : Text → Text
  | [] => []
  | [u] => if isHighSurrogate u || isLowSurrogate u then hexEscape u else escapeUnit u
  | u :: v :: rest =>
      if isHighSurrogate u then
        if isLowSurrogate v then u :: v :: escaped rest else hexEscape u ++ escaped (v :: rest)
      else if isLowSurrogate u then hexEscape u ++ escaped (v :: rest)
      else escapeUnit u ++ escaped (v :: rest)

/-- The text between double quotes. -/
def quoted (t : Text) : Text := quoteMark :: (escaped t ++ [quoteMark])

end Arrange.Text
