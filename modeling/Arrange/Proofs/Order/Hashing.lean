import Arrange.Proofs.Order.Kind
import Arrange.Order.Universal
import Mathlib.Tactic

/-!
# Hashing along a run

The identity table only grows, and what it holds keeps its place, so that the hash code of a value
is settled once it was hashed. `Hashing.exec` runs a computation on a table, `hashValue_exec` says
what hashing does, and `IdentityTable.Knows` marks the values whose hash code is settled: from then
on it is `IdentityTable.code`, in this table and in every later one (`code_of_le`).
-/

set_option autoImplicit false

namespace Arrange

open Std

variable {ω : Type}

/-! ## Growing tables -/

namespace IdentityTable

/-- A table is at most one that extends it at its end. -/
instance : Preorder (IdentityTable ω) where
  le t t' := t.seen <+: t'.seen
  le_refl t := List.prefix_rfl
  le_trans _ _ _ h h' := h.trans h'

variable [DecidableEq ω]

/-- A hash that was given is kept. -/
theorem find?_of_le {t t' : IdentityTable ω} (h : t ≤ t') {v : Value ω} {k : Nat}
    (hk : t.find? v = some k) : t'.find? v = some k := by
  obtain ⟨rest, hrest⟩ := h
  unfold find? at hk ⊢
  -- the first place of the value lies in the part that the tables share
  obtain ⟨i, hi, rfl⟩ := Option.map_eq_some_iff.mp hk
  rw [← hrest, List.findIdx?_append, hi]
  rfl

theorem enter_of_find {t : IdentityTable ω} {v : Value ω} {k : Nat} (h : t.find? v = some k) :
    t.enter v = t := by
  rw [enter, h]

theorem le_enter (t : IdentityTable ω) (v : Value ω) : t ≤ t.enter v := by
  unfold enter
  cases t.find? v with
  | some k => exact le_rfl
  | none => exact List.prefix_append t.seen [v]

/-- An object that is entered has in the new table the hash that the old one gave it. -/
theorem find?_enter (t : IdentityTable ω) (v : Value ω) :
    (t.enter v).find? v = some (t.hashOf v) := by
  unfold enter hashOf
  cases h : t.find? v with
  | some k => exact h
  | none =>
      have hnew : t.seen.findIdx? (· = v) = none := by
        unfold find? at h
        exact Option.map_eq_none_iff.mp h
      show ((t.seen ++ [v]).findIdx? (· = v)).map (· + 1) = some t.next
      rw [List.findIdx?_append, hnew]
      simp [next]

theorem hashOf_enter (t : IdentityTable ω) (v : Value ω) : (t.enter v).hashOf v = t.hashOf v := by
  rw [hashOf, find?_enter, Option.getD_some]

end IdentityTable

/-! ## Running -/

/-- What a computation gives when it starts on a table, and the table that it leaves. -/
def Hashing.exec {α : Type} (x : Hashing ω α) (t : IdentityTable ω) :
    Except (Fault ω) α × IdentityTable ω :=
  (ExceptT.run x).run t

namespace Hashing

variable {α β : Type}

@[simp] theorem exec_pure (v : α) (t : IdentityTable ω) :
    exec (pure v : Hashing ω α) t = (.ok v, t) := rfl

@[simp] theorem exec_ofExcept (x : Except (Fault ω) α) (t : IdentityTable ω) :
    exec (MonadExcept.ofExcept x : Hashing ω α) t = (x, t) := by
  cases x <;> rfl

theorem exec_bind (x : Hashing ω α) (f : α → Hashing ω β) (t : IdentityTable ω) :
    exec (x >>= f) t = match x.exec t with
      | (.ok v, t') => (f v).exec t'
      | (.error fault, t') => (.error fault, t') := by
  unfold exec ExceptT.run StateT.run
  simp only [bind, ExceptT.bind, ExceptT.mk, StateT.bind]
  cases x t with
  | mk r t' => cases r <;> rfl

/-- Two computations are the same if they give the same from every table. -/
theorem ext {x y : Hashing ω α} (h : ∀ t, x.exec t = y.exec t) : x = y := funext h

/-- What is made of a result leaves the table alone. -/
theorem exec_bind_pure_table (x : Hashing ω α) (f : α → β) (t : IdentityTable ω) :
    (exec (x >>= fun v => pure (f v)) t).2 = (x.exec t).2 := by
  rw [exec_bind]
  cases x.exec t with
  | mk r t' => cases r <;> rfl

/-- A computation gives one number from one table. -/
theorem number_of_exec {c : Hashing ω (Value ω)} {t t' : IdentityTable ω} {x y : Float}
    (hx : c.exec t = (.ok (.number x), t')) (hy : (c.exec t).1 = .ok (.number y)) : x = y := by
  rw [hx] at hy
  injection hy with hvalue
  injection hvalue

/-- A computation grows the table when it only adds to it, also where it fails. -/
def Grows (x : Hashing ω α) : Prop := ∀ t, t ≤ (x.exec t).2

theorem Grows.of_pure (v : α) : (pure v : Hashing ω α).Grows := fun _ => le_rfl

theorem Grows.bind {x : Hashing ω α} {f : α → Hashing ω β} (hx : x.Grows)
    (hf : ∀ v, (f v).Grows) : (x >>= f).Grows := by
  intro t
  have hle := hx t
  rw [exec_bind]
  cases h : x.exec t with
  | mk r t' =>
      rw [h] at hle
      cases r with
      | error fault => exact hle
      | ok v => exact hle.trans (hf v t')

end Hashing

/-! ## Hash codes -/

section Codes

variable [DecidableEq ω] [Objects ω]

/-- The hash code of a value that is not hashed by identity: its own one, or that of a primitive. -/
def Value.fixedHash? (v : Value ω) : Option (Except (Fault ω) HashCode) :=
  match v.ownHash? with
  | some code => some (code.bind fun result =>
      result.toNumber.bind fun x => .ok (.code (Number.wrap32 x)))
  | none => if v.isPrimitive then some ((primitiveHash v).map .code) else none

/-- Hashing gives a value its fixed code and leaves the table alone, or enters it in the table. -/
theorem hashValue_exec (v : Value ω) (t : IdentityTable ω) :
    (hashValue v).exec t = match v.fixedHash? with
      | some r => (r, t)
      | none => (.ok (.identity (t.hashOf v)), t.enter v) := by
  unfold hashValue Value.fixedHash?
  cases v.ownHash? with
  | some code =>
      cases code with
      | error fault => rfl
      | ok result =>
          show ((MonadExcept.ofExcept result.toNumber >>= fun x =>
            pure (HashCode.code (Number.wrap32 x)) : Hashing ω HashCode).exec t)
            = (result.toNumber.bind fun x => .ok (HashCode.code (Number.wrap32 x)), t)
          cases result.toNumber <;> rfl
  | none =>
      cases v.isPrimitive with
      | true =>
          show ((MonadExcept.ofExcept (primitiveHash v) >>= fun h =>
            pure (HashCode.code h) : Hashing ω HashCode).exec t) = ((primitiveHash v).map .code, t)
          cases primitiveHash v <;> rfl
      | false => rfl

theorem hashValue_grows (v : Value ω) : (hashValue v).Grows := by
  intro t
  rw [hashValue_exec]
  cases v.fixedHash? with
  | some r => exact le_rfl
  | none => exact t.le_enter v

namespace IdentityTable

/-- The hash code of a value is settled: it is fixed, or the table holds the value. -/
def Knows (t : IdentityTable ω) (v : Value ω) : Prop :=
  v.fixedHash? = none → (t.find? v).isSome

/-- The hash code that hashing a value in this table gives, as an integer; 0 if it fails. -/
def code (t : IdentityTable ω) (v : Value ω) : Int :=
  match v.fixedHash? with
  | some (.ok h) => h.toInt
  | some (.error _) => 0
  | none => t.hashOf v

theorem Knows.of_le {t t' : IdentityTable ω} {v : Value ω} (hv : t.Knows v) (h : t ≤ t') :
    t'.Knows v := by
  intro hfixed
  obtain ⟨k, hk⟩ := Option.isSome_iff_exists.mp (hv hfixed)
  rw [find?_of_le h hk]
  rfl

/-- A settled hash code stays. -/
theorem code_of_le {t t' : IdentityTable ω} {v : Value ω} (hv : t.Knows v) (h : t ≤ t') :
    t'.code v = t.code v := by
  unfold code
  cases hfixed : v.fixedHash? with
  | some r => cases r <;> rfl
  | none =>
      obtain ⟨k, hk⟩ := Option.isSome_iff_exists.mp (hv hfixed)
      show ((t'.hashOf v : Nat) : Int) = (t.hashOf v : Nat)
      rw [hashOf, hashOf, hk, find?_of_le h hk]
      rfl

end IdentityTable

/-- Hashing settles the hash code. -/
theorem knows_of_hashValue (v : Value ω) (t : IdentityTable ω) :
    ((hashValue v).exec t).2.Knows v := by
  intro hfixed
  rw [hashValue_exec, hfixed]
  show ((t.enter v).find? v).isSome = true
  rw [t.find?_enter v]
  rfl

/-- Where the hash code is settled, hashing changes nothing. -/
theorem hashValue_table {v : Value ω} {t : IdentityTable ω} (hv : t.Knows v) :
    ((hashValue v).exec t).2 = t := by
  rw [hashValue_exec]
  cases hfixed : v.fixedHash? with
  | some r => rfl
  | none =>
      obtain ⟨k, hk⟩ := Option.isSome_iff_exists.mp (hv hfixed)
      exact IdentityTable.enter_of_find hk

/-! ## The order by hash code -/

namespace IdentityTable

/-- The order by hash code, then by text. -/
def order (t : IdentityTable ω) (a b : Value ω) : Ordering :=
  (compare (t.code a) (t.code b)).then (textOrder a.spelledOrTag b.spelledOrTag)

instance (t : IdentityTable ω) : TransCmp t.order :=
  have _ : TransCmp fun a b : Value ω => textOrder a.spelledOrTag b.spelledOrTag :=
    { eq_swap := OrientedCmp.eq_swap
      isLE_trans := TransCmp.isLE_trans }
  inferInstanceAs (TransCmp (compareLex (compareOn t.code)
    fun a b : Value ω => textOrder a.spelledOrTag b.spelledOrTag))

/-- The settled hash codes and the texts decide for good. -/
theorem order_of_le {t t' : IdentityTable ω} {a b : Value ω} (ha : t.Knows a)
    (hb : t.Knows b) (h : t ≤ t') : t'.order a b = t.order a b := by
  rw [order, code_of_le ha h, code_of_le hb h, order]

/-- The table after two values were hashed, the first one first. -/
def hashed (t : IdentityTable ω) (a b : Value ω) : IdentityTable ω :=
  ((hashValue b).exec ((hashValue a).exec t).2).2

theorem knows_hashed (t : IdentityTable ω) (a b : Value ω) :
    (t.hashed a b).Knows a ∧ (t.hashed a b).Knows b :=
  ⟨(knows_of_hashValue a t).of_le (hashValue_grows b _), knows_of_hashValue b _⟩

theorem hashed_of_knows {t : IdentityTable ω} {a b : Value ω} (ha : t.Knows a)
    (hb : t.Knows b) : t.hashed a b = t := by
  rw [hashed, hashValue_table ha, hashValue_table hb]

end IdentityTable

end Codes

end Arrange
