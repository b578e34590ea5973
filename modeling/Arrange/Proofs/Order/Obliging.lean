import Arrange.Proofs.Order.Common
import Arrange.Proofs.Order.Hashing

/-!
# What is asked of methods

Values may bring an order, an equality and a hash code, and these may do anything. `Obliging`
gathers what comparing the values of a set with each other relies on, and what follows from it for
each of the things that a comparison does: comparing by the natural order, asking the equalities,
and hashing.
-/

set_option autoImplicit false

namespace Arrange

open Std

variable {ω : Type} [Objects ω]

/-- What comparing the values of `S` with each other relies on: the orders that they bring give
numbers, whose signs are `own`; their equalities do not fail; and their hash codes are numbers. -/
structure Obliging (own : Value ω → Value ω → Ordering) (S : Set (Value ω)) : Prop where
  order : ∀ a ∈ S, ∀ b ∈ S, orderClass? a = some .own → orderClass? b = some .own →
    ∀ compareTo, a.ownOrder? = some compareTo →
      ∃ x, compareTo b = .ok (.number x) ∧ Number.HasSign x (own a b)
  equality : ∀ a ∈ S, ∀ b ∈ S, ∀ equals, a.ownEquality? = some equals → ∃ r, equals b = .ok r
  hash : ∀ a ∈ S, ∀ code, a.ownHash? = some code → ∃ x : Float, code = .ok (.number x)

/-- Values that bring none of the three methods oblige. -/
theorem Obliging.of_methodless {own : Value ω → Value ω → Ordering} {S : Set (Value ω)}
    (h : ∀ v ∈ S, orderClass? v ≠ some .own ∧ v.ownEquality? = none ∧ v.ownHash? = none) :
    Obliging own S := by
  refine ⟨?_, ?_, ?_⟩
  · intro a ha b _ hown
    exact absurd hown (h a ha).1
  · intro a ha b _ equals hequals
    rw [(h a ha).2.1] at hequals
    cases hequals
  · intro a ha code hcode
    rw [(h a ha).2.2] at hcode
    cases hcode

/-! ## The natural order -/

/-- Whether either of two values says that it equals the other, and no equality fails before. -/
def accepts (a b : Value ω) : Bool :=
  match eitherAccepts a b with
  | .ok answer => answer
  | .error _ => false

theorem eitherAccepts_of_answers {a b : Value ω} {answer other : Bool}
    (ha : acceptsAsEqual a b = .ok answer) (hb : acceptsAsEqual b a = .ok other) :
    eitherAccepts a b = .ok (answer || other) := by
  unfold eitherAccepts
  rw [ha, hb]
  cases answer <;> rfl

theorem exists_primitiveHash {v : Value ω} (h : v.isPrimitive = true) :
    ∃ code, primitiveHash v = .ok code := by
  cases v with
  | array => cases h
  | object => cases h
  | _ => exact ⟨_, rfl⟩

namespace Obliging

variable {own : Value ω → Value ω → Ordering} {S : Set (Value ω)} (h : Obliging own S)
  {a b : Value ω} (ha : a ∈ S) (hb : b ∈ S)

include h ha hb

/-- Values of one class compare to a number with the sign that the order of the class gives. -/
theorem compareNatural_of_class {c : OrderClass} (hca : orderClass? a = some c)
    (hcb : orderClass? b = some c) :
    ∃ x, compareNatural a b = .ok (.number x) ∧ Number.HasSign x (c.sign own a b) := by
  refine Arrange.compareNatural_of_class (fun hown => ?_) hca hcb
  subst hown
  exact h.order a ha b hb hca hcb

/-! ## Equalities -/

theorem exists_acceptsAsEqual : ∃ answer, acceptsAsEqual a b = .ok answer := by
  unfold acceptsAsEqual
  cases hown : a.ownEquality? with
  | none => exact ⟨false, rfl⟩
  | some equals =>
      obtain ⟨r, hr⟩ := h.equality a ha b hb equals hown
      refine ⟨r.truthy, ?_⟩
      show (equals b).map Value.truthy = _
      rw [hr]
      rfl

theorem eitherAccepts_eq : eitherAccepts a b = .ok (accepts a b) := by
  obtain ⟨answer, hanswer⟩ := h.exists_acceptsAsEqual ha hb
  obtain ⟨other, hother⟩ := h.exists_acceptsAsEqual hb ha
  rw [accepts, eitherAccepts_of_answers hanswer hother]

/-- It makes no difference which of two values is asked first. -/
theorem accepts_comm : accepts b a = accepts a b := by
  obtain ⟨answer, hanswer⟩ := h.exists_acceptsAsEqual ha hb
  obtain ⟨other, hother⟩ := h.exists_acceptsAsEqual hb ha
  rw [accepts, accepts, eitherAccepts_of_answers hanswer hother,
    eitherAccepts_of_answers hother hanswer]
  exact Bool.or_comm other answer

omit hb

/-! ## Hash codes -/

theorem exists_fixedHash {r : Except (Fault ω) HashCode} (hr : a.fixedHash? = some r) :
    ∃ code, r = .ok code := by
  unfold Value.fixedHash? at hr
  cases hown : a.ownHash? with
  | some result =>
      obtain ⟨x, rfl⟩ := h.hash a ha result hown
      rw [hown] at hr
      cases hr
      exact ⟨_, rfl⟩
  | none =>
      rw [hown] at hr
      by_cases hprimitive : a.isPrimitive = true
      · obtain ⟨code, hcode⟩ := exists_primitiveHash hprimitive
        simp only [if_pos hprimitive, hcode, Option.some.injEq] at hr
        exact ⟨.code code, hr.symm⟩
      · simp only [if_neg hprimitive] at hr
        cases hr

variable [DecidableEq ω]

/-- Hashing gives the code that the value has in the table which hashing leaves. -/
theorem hashValue_answers (t : IdentityTable ω) :
    ∃ code t', (hashValue a).exec t = (.ok code, t') ∧ code.toInt = t'.code a := by
  rw [hashValue_exec]
  cases hfixed : a.fixedHash? with
  | some r =>
      obtain ⟨code, rfl⟩ := h.exists_fixedHash ha hfixed
      refine ⟨code, t, rfl, ?_⟩
      rw [IdentityTable.code, hfixed]
  | none =>
      refine ⟨.identity (t.hashOf a), t.enter a, rfl, ?_⟩
      rw [IdentityTable.code, hfixed]
      show ((t.hashOf a : Nat) : Int) = (t.enter a).hashOf a
      rw [IdentityTable.hashOf_enter]

include hb

/-- Two values that are hashed compare by the order of the table which is left. -/
theorem compareHashed_exec (t : IdentityTable ω) :
    (compareHashed a b).exec t = (.ok ((t.hashed a b).order a b), t.hashed a b) := by
  obtain ⟨k, t₁, hexec, hcode⟩ := h.hashValue_answers ha t
  obtain ⟨l, t₂, hexec', hcode'⟩ := h.hashValue_answers hb t₁
  have hhashed : t.hashed a b = t₂ := by rw [IdentityTable.hashed, hexec, hexec']
  -- what the first value was given is still so after the second one was hashed
  have hknows : t₁.Knows a := by
    have hk := knows_of_hashValue a t
    rwa [hexec] at hk
  have hle : t₁ ≤ t₂ := by
    have hgrows := hashValue_grows b t₁
    rwa [hexec'] at hgrows
  have hkept : k.toInt = t₂.code a := by rw [hcode, IdentityTable.code_of_le hknows hle]
  let text : Ordering := textOrder a.spelledOrTag b.spelledOrTag
  calc (compareHashed a b).exec t
      = Hashing.exec (hashValue b >>= fun l => pure ((compare k.toInt l.toInt).then text)) t₁ := by
        rw [compareHashed, Hashing.exec_bind, hexec]
    _ = (.ok ((compare k.toInt l.toInt).then text), t₂) := by
        rw [Hashing.exec_bind, hexec']
        rfl
    _ = (.ok (t₂.order a b), t₂) := by rw [hkept, hcode', IdentityTable.order]
    _ = (.ok ((t.hashed a b).order a b), t.hashed a b) := by rw [hhashed]

end Obliging

end Arrange
