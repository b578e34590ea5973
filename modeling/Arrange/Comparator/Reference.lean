import Arrange.Comparator.Argument
import Arrange.Value.Sequence

/-!
# The order of a reference sequence

A `ReferenceOrder` ranks keys by their position in a sequence. The positions are worked out once,
when it is made; of equal entries the first counts. A key that brings an equality of its own is
looked for with it, entry by entry. Keys that are not found rank before all others, or after them.
-/

set_option autoImplicit false

namespace Arrange

variable {ω : Type}

/-- A sequence of keys as an order. -/
structure ReferenceOrder (ω : Type) where
  /-- Whether keys that are not in the sequence rank last, given as any value. -/
  atEnd : Value ω
  keys : List (Value ω)
  /-- The keys that differ from all before them, with their positions. -/
  positions : List (Value ω × Nat)

namespace ReferenceOrder

section Make

variable [DecidableEq ω]

/-- The position recorded for a key. -/
def lookUp (key : Value ω) (positions : List (Value ω × Nat)) : Option Nat :=
  (positions.find? fun entry => entry.1.sameKey key).map (·.2)

/-- The positions of keys, the first of which stands at `index`, added to those known. -/
def record (known : List (Value ω × Nat)) (index : Nat) : List (Value ω) → List (Value ω × Nat)
  | [] => known
  | key :: rest =>
      if (lookUp key known).isSome then record known (index + 1) rest
      else record (known ++ [(key, index)]) (index + 1) rest

/-- The order of a sequence. -/
def make (atEnd : Value ω) (keys : List (Value ω)) : ReferenceOrder ω :=
  ⟨atEnd, keys, record [] 0 keys⟩

end Make

/-- The first position, counted from `index`, whose entry an equality accepts. -/
def scan (accepts : Value ω → Except (Fault ω) (Value ω)) (index : Nat) :
    List (Value ω) → Except (Fault ω) (Option Nat)
  | [] => .ok none
  | entry :: rest =>
      match accepts entry with
      | .error fault => .error fault
      | .ok answer => if answer.truthy then .ok (some index) else scan accepts (index + 1) rest

variable [DecidableEq ω] [Objects ω]

/-- The position of a key in the sequence. -/
def position? (r : ReferenceOrder ω) (key : Value ω) : Except (Fault ω) (Option Nat) :=
  match key.ownEquality? with
  | some accepts => scan accepts 0 r.keys
  | none => .ok (lookUp key r.positions)

/-- The position of a key in the sequence, or -1. -/
def indexOf (r : ReferenceOrder ω) (key : Value ω) : Except (Fault ω) Int := do
  match ← r.position? key with
  | some i => return i
  | none => return -1

/-- The rank of a key: its position, or for a key that is not found -1, or the length of the
sequence when such keys rank last. -/
def rank (r : ReferenceOrder ω) (key : Value ω) : Except (Fault ω) Int := do
  match ← r.position? key with
  | some i => return i
  | none => return if r.atEnd.truthy then r.keys.length else -1

/-- The comparison of two keys by rank. -/
def compareKeys (r : ReferenceOrder ω) (a b : Value ω) : Except (Fault ω) (Value ω) := do
  let i ← r.rank a
  let j ← r.rank b
  return .ofOrdering (compare i j)

/-- The comparator of keys by rank. -/
def comparator {m : Type → Type} [Monad m] [MonadExceptOf (Fault ω) m] (r : ReferenceOrder ω) :
    Comparator m ω := fun a b => MonadExcept.ofExcept (r.compareKeys a b)

end ReferenceOrder

/-! ## Comparing by an extracted key -/

/-- The comparator of values by the rank of their key. The two arguments after the key are a flag
and a sequence, or just a sequence; a flag alone has the empty sequence. -/
def byReference {m : Type → Type} [Monad m] [MonadExceptOf (Fault ω) m] [DecidableEq ω]
    [Objects ω] (key : Argument ω (Key m ω)) (atEnd? : Option (Value ω))
    (reference? : Option (List (Value ω))) : Except (Fault ω) (Comparator m ω) := do
  let extract ← Argument.requireKey .reference key
  let order ←
    match atEnd?, reference? with
    | some (.bool b), keys => pure (ReferenceOrder.make (.bool b) (keys.getD []))
    | some v, _ => (v.asSequence).map (ReferenceOrder.make (.bool false))
    | none, some keys => pure (ReferenceOrder.make (.bool false) keys)
    | none, none => .error .illTyped
  return Comparator.onKey extract order.comparator

end Arrange
