/-!
# Texts

A text is a list of 16-bit code units. Any list is allowed, so a surrogate may stand alone.
`Text.ofString` writes a string in code units, `Text.toString?` reads it back where every
surrogate is paired, and `Text.compare` is the lexicographic order by code unit, in which a
proper prefix comes first.
-/

set_option autoImplicit false

namespace Arrange

/-- A sequence of 16-bit code units. -/
abbrev Text := List UInt16

namespace Text

/-! ## Strings as texts -/

/-- The code units of one character: one unit below `0x10000`, a surrogate pair above. -/
def ofChar (c : Char) : Text :=
  if c.toNat < 0x10000 then [c.toNat.toUInt16]
  else
    [(0xD800 + (c.toNat - 0x10000) / 0x400).toUInt16,
      (0xDC00 + (c.toNat - 0x10000) % 0x400).toUInt16]

/-- The code units of a string. -/
def ofString (s : String) : Text := s.toList.flatMap ofChar

instance : Coe String Text := ⟨ofString⟩

/-- The decimal digits of a natural number. -/
def ofNat (n : Nat) : Text := (Nat.toDigits 10 n).flatMap ofChar

/-- The decimal digits of an integer, after a minus sign when it is negative. -/
def ofInt : Int → Text
  | .ofNat n => ofNat n
  | .negSucc n => ofString "-" ++ ofNat (n + 1)

/-! ## Surrogates -/

/-- The first half of a surrogate pair. -/
def isHighSurrogate (u : UInt16) : Bool := 0xD800 ≤ u && u < 0xDC00

/-- The second half of a surrogate pair. -/
def isLowSurrogate (u : UInt16) : Bool := 0xDC00 ≤ u && u < 0xE000

/-- The character that a surrogate pair stands for. -/
def ofPair (high low : UInt16) : Char :=
  Char.ofNat (0x10000 + (high.toNat - 0xD800) * 0x400 + (low.toNat - 0xDC00))

/-- The characters of a text, or `none` when a surrogate stands alone. -/
def toChars? : Text → Option (List Char)
  | [] => some []
  | [u] => if isHighSurrogate u || isLowSurrogate u then none else some [Char.ofNat u.toNat]
  | u :: v :: rest =>
      if isHighSurrogate u then
        if isLowSurrogate v then (toChars? rest).map (ofPair u v :: ·) else none
      else if isLowSurrogate u then none
      else (toChars? (v :: rest)).map (Char.ofNat u.toNat :: ·)

/-- The string with these code units, or `none` when a surrogate stands alone. -/
def toString? (t : Text) : Option String := (toChars? t).map String.ofList

/-! ## The order by code unit -/

/-- Lexicographic by code unit, a proper prefix first. -/
protected def compare : Text → Text → Ordering
  | [], [] => .eq
  | [], _ :: _ => .lt
  | _ :: _, [] => .gt
  | u :: us, v :: vs => if u < v then .lt else if v < u then .gt else Text.compare us vs

/-! ## Joining -/

/-- The texts one after another with `separator` between them. -/
def join (separator : Text) : List Text → Text
  | [] => []
  | [t] => t
  | t :: ts => t ++ separator ++ join separator ts

end Text

end Arrange
