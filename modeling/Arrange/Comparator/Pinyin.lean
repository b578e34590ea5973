import Arrange.Comparator.Argument

/-!
# The order of romanized Chinese text

`Pinyin.collate` orders texts of digits, the Han characters of a fixed list and Latin letters: by
the ranks of their characters, an upper-case letter having the rank of its lower-case one, and
texts of equal ranks by the first place where the case differs, lower case first.

`byCollation` makes from any collation a comparator of extracted texts in which absent texts
come first, and `byPinyin` is the one of this collation.
-/

set_option autoImplicit false

namespace Arrange

/-- A collation of texts: below, at or above zero. -/
abbrev Collation := Text → Text → Float

/-! ## The collation -/

namespace Pinyin

/-- The locale in which the collation is defined. -/
def locale : Text := "zh-u-co-pinyin"

/-- The Han characters of the alphabet in the order of their romanization. -/
def hanCharacters : Text :=
  "阿爱安八白北本陈成大地东二方飞高国海好黄李林刘龙马美明南牛平七钱全人三山上沈水四孙天王文吴五西小徐杨一张长赵郑中周朱"

/-- The digits and the Han characters in order; the letters come after them. -/
def beforeLetters : Text := Text.ofString "0123456789" ++ hanCharacters

/-- Whether a unit is an upper-case letter. -/
def isUpper (u : UInt16) : Bool := 0x41 ≤ u && u ≤ 0x5A

/-- Whether a unit is a lower-case letter. -/
def isLower (u : UInt16) : Bool := 0x61 ≤ u && u ≤ 0x7A

/-- The rank of a character, in which case makes no difference. Units outside the alphabet come
after it. -/
def rank (u : UInt16) : Nat :=
  let letters := beforeLetters.length
  if isUpper u then letters + (u.toNat - 0x41)
  else if isLower u then letters + (u.toNat - 0x61)
  else
    match beforeLetters.findIdx? (· == u) with
    | some i => i
    | none => letters + 26 + u.toNat

/-- The ranks of the characters of a text. -/
def ranks (t : Text) : List Nat := t.map rank

/-- The first place where the case differs decides, lower case first. -/
def compareCase : Text → Text → Ordering
  | u :: us, v :: vs =>
      match isUpper u, isUpper v with
      | true, false => .gt
      | false, true => .lt
      | _, _ => compareCase us vs
  | _, _ => .eq

/-- The order of two texts: by their ranks, where a proper prefix comes first, and then by case. -/
def order (s t : Text) : Ordering :=
  (List.compareLex compare (ranks s) (ranks t)).then (compareCase s t)

/-- The collation: the order of two texts as a number. -/
def collate : Collation := fun s t =>
  match order s t with
  | .lt => -1
  | .eq => 0
  | .gt => 1

end Pinyin

/-! ## Comparing by a collation -/

/-- The sign of a double: -1 or 1, and zeros and NaN as they are. -/
def Number.sign (x : Float) : Float := if x < 0 then -1 else if 0 < x then 1 else x

namespace Comparator

variable {m : Type → Type} {ω : Type} [Monad m] [MonadExceptOf (Fault ω) m] [Objects ω]

/-- The comparator of texts by the sign of a collation. Other present values are taken by their
text. -/
def signedCollation (collate : Collation) : Comparator m ω := fun a b => do
  let s ← MonadExcept.ofExcept a.spelledWithin
  let t ← MonadExcept.ofExcept b.spelledWithin
  return .number (Number.sign (collate s t))

/-- The comparator of texts by a collation, absent texts first. -/
def collated (collate : Collation) : Comparator m ω := fun a b =>
  if a.isAbsent then pure (.ofOrdering (if b.isAbsent then .eq else .lt))
  else if b.isAbsent then pure (.ofOrdering .gt)
  else signedCollation collate a b

end Comparator

section Factories

variable {m : Type → Type} {ω : Type} [Monad m] [MonadExceptOf (Fault ω) m] [Objects ω]

/-- The comparator of values by the collation of an extracted text. With `reversed` the second
value is asked about first. -/
def byCollation (collate : Collation) (key : Argument ω (Key m ω)) (reversed : Bool) :
    Except (Fault ω) (Comparator m ω) := do
  let extract ← Argument.requireKey .pinyin key
  let forward := Comparator.onKey extract (Comparator.collated collate)
  return if reversed then forward.reverse else forward

/-- The comparator of values by the romanization of an extracted text. -/
def byPinyin (key : Argument ω (Key m ω)) (reversed : Bool) :
    Except (Fault ω) (Comparator m ω) :=
  byCollation Pinyin.collate key reversed

end Factories

end Arrange
