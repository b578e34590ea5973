import Arrange.Order.NullSafe
import Arrange.Text.Hash
import Arrange.Value.Conversion

/-!
# Comparing any two values

`compareUniversal` compares two values of whatever kinds by a chain of rules: the same value is
equal; absent values rank by a flag; values with a natural order in common compare by it; a value
that says it equals the other is equal to it; and all other pairs compare by hash code, then by
text.

An object without a hash code of its own is hashed by identity: by its place in the order in which
such objects were first hashed. That order is an `IdentityTable`, which `compareUniversal` and
`hashValue` extend as they go; it keeps what was added also when they fail later on.
-/

set_option autoImplicit false

namespace Arrange

variable {ω : Type}

/-! ## The identity table -/

/-- The objects hashed by identity, in the order in which they were first hashed. -/
structure IdentityTable (ω : Type) where
  seen : List (Value ω)

namespace IdentityTable

/-- The table before anything was hashed. -/
def empty : IdentityTable ω := ⟨[]⟩

instance : EmptyCollection (IdentityTable ω) := ⟨empty⟩

/-- The hash that the next new object is given. -/
def next (t : IdentityTable ω) : Nat := t.seen.length + 1

variable [DecidableEq ω]

/-- The hash of an object that was hashed before: its place, counted from 1. -/
def find? (t : IdentityTable ω) (v : Value ω) : Option Nat :=
  (t.seen.findIdx? (· = v)).map (· + 1)

/-- The table in which an object is entered, behind all others if it is new. -/
def enter (t : IdentityTable ω) (v : Value ω) : IdentityTable ω :=
  match t.find? v with
  | some _ => t
  | none => ⟨t.seen ++ [v]⟩

/-- The identity hash of an object: the one it has, or the next one. -/
def hashOf (t : IdentityTable ω) (v : Value ω) : Nat := (t.find? v).getD t.next

end IdentityTable

/-! ## Hash codes -/

/-- Computations that hash values: they read and extend the identity table, and what they added
stays when they fail. -/
abbrev Hashing (ω : Type) := ExceptT (Fault ω) (StateM (IdentityTable ω))

/-- A hash code: a 32-bit code, or the place of an object hashed by identity. -/
inductive HashCode where
  | code (h : Int32)
  | identity (k : Nat)

/-- A hash code as an integer. -/
def HashCode.toInt : HashCode → Int
  | code h => h.toInt
  | identity k => k

section Hashing

variable [DecidableEq ω]

/-- The identity hash of an object. -/
def identityHash (v : Value ω) : Hashing ω Nat := do
  let table ← get
  set (table.enter v)
  return table.hashOf v

variable [Objects ω]

/-- The hash code of a primitive value: that of the text with its kind and its own text. -/
def primitiveHash (v : Value ω) : Except (Fault ω) Int32 := do
  return Text.hash (v.kindName ++ Text.ofString ":" ++ (← v.spelled))

/-- The hash code of a value: its own one as a 32-bit word when it brings one, the identity hash of
any other object, and the hash of the text of a primitive. -/
def hashValue (v : Value ω) : Hashing ω HashCode := do
  match v.ownHash? with
  | some code =>
      let result ← MonadExcept.ofExcept code
      return .code (Number.wrap32 (← MonadExcept.ofExcept result.toNumber))
  | none =>
      if v.isPrimitive then return .code (← MonadExcept.ofExcept (primitiveHash v))
      else return .identity (← identityHash v)

/-! ## Comparing -/

/-- Whether a value brings an equality that accepts the other value. -/
def acceptsAsEqual (a b : Value ω) : Except (Fault ω) Bool :=
  match a.ownEquality? with
  | some equals => (equals b).map Value.truthy
  | none => .ok false

/-- Whether either of two values says that it equals the other; the first one is asked first. -/
def eitherAccepts (a b : Value ω) : Except (Fault ω) Bool := do
  if ← acceptsAsEqual a b then return true else acceptsAsEqual b a

/-- The comparison by hash code, then by text. The first value is hashed first. -/
def compareHashed (a b : Value ω) : Hashing ω Ordering := do
  let h ← hashValue a
  let k ← hashValue b
  return (compare h.toInt k.toInt).then (textOrder a.spelledOrTag b.spelledOrTag)

/-- The comparison of any two values. -/
def compareUniversal (a b : Value ω) (absentLast : Bool) : Hashing ω (Value ω) := do
  if a = b then return .ofOrdering .eq
  match absentOrder? a b absentLast with
  | some o => return .ofOrdering o
  | none =>
      if haveCommonOrder a b then MonadExcept.ofExcept (compareNatural a b)
      else if ← MonadExcept.ofExcept (eitherAccepts a b) then return .ofOrdering .eq
      else return .ofOrdering (← compareHashed a b)

end Hashing

end Arrange
