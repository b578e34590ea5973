import Arrange.Proofs.Order.Kind

/-!
# Values with a natural order in common

The values that have a natural order fall into classes (`OrderClass`): one for each kind that is
compared by content, and one for the values that bring an order of their own. Two values have a
natural order in common exactly when they are of one class (`haveCommonOrder_iff`), and each class
is ordered if the orders that its values bring agree (`OrderClass.isOrderOn`).
-/

set_option autoImplicit false

namespace Arrange

variable {ω : Type}

/-! ## Classes -/

/-- The classes of values that are compared with each other. -/
inductive OrderClass where
  | kind (k : OrderedKind)
  /-- The values that bring an order. -/
  | own
deriving DecidableEq

/-- The kind of a primitive value that has an order. -/
def primitiveKind? : Value ω → Option OrderedKind
  | .number _ => some .number
  | .bigint _ => some .bigint
  | .text _ => some .text
  | .bool _ => some .bool
  | _ => none

/-- Dates are no primitives. -/
theorem primitiveKind?_ne_date (v : Value ω) : primitiveKind? v ≠ some .date := by
  cases v <;> simp [primitiveKind?]

theorem sameOrderedKind_iff (a b : Value ω) :
    sameOrderedKind a b = true ↔ ∃ k, primitiveKind? a = some k ∧ primitiveKind? b = some k := by
  cases a <;> cases b <;> simp [sameOrderedKind, primitiveKind?]

variable [Objects ω]

/-- The class of a value. A date goes with the dates also when it brings an order. -/
def orderClass? (v : Value ω) : Option OrderClass :=
  if v.isDate then some (.kind .date)
  else if bringsOrder v then some .own
  else (primitiveKind? v).map .kind

/-- Two values have a natural order in common exactly when they are of one class. -/
theorem haveCommonOrder_iff (a b : Value ω) :
    haveCommonOrder a b = true ↔ ∃ c, orderClass? a = some c ∧ orderClass? b = some c := by
  unfold haveCommonOrder orderClass?
  cases a.isDate <;> cases b.isDate <;> cases bringsOrder a <;> cases bringsOrder b <;>
    simp [primitiveKind?_ne_date, sameOrderedKind_iff]

theorem haveCommonOrder_comm (a b : Value ω) : haveCommonOrder a b = haveCommonOrder b a := by
  rw [Bool.eq_iff_iff, haveCommonOrder_iff, haveCommonOrder_iff]
  constructor
  · rintro ⟨c, ha, hb⟩
    exact ⟨c, hb, ha⟩
  · rintro ⟨c, hb, ha⟩
    exact ⟨c, ha, hb⟩

theorem orderClass?_eq_own {v : Value ω} :
    orderClass? v = some .own ↔ v.isDate = false ∧ bringsOrder v = true := by
  unfold orderClass?
  cases v.isDate <;> cases bringsOrder v <;> simp

theorem mem_members_of_class {v : Value ω} {k : OrderedKind}
    (h : orderClass? v = some (.kind k)) : v ∈ k.members := by
  unfold orderClass? at h
  by_cases hdate : v.isDate = true
  · rw [if_pos hdate] at h
    cases h
    exact OrderedKind.mem_members_date.mpr hdate
  · rw [if_neg hdate] at h
    by_cases hown : bringsOrder v = true
    · rw [if_pos hown] at h
      cases h
    · rw [if_neg hown] at h
      cases v <;> cases h <;> rfl

/-! ## The order of a class -/

/-- The order of a class, where `own` is that of the values that bring one. -/
def OrderClass.sign (own : Value ω → Value ω → Ordering) :
    OrderClass → Value ω → Value ω → Ordering
  | .kind k => k.sign
  | .own => own

/-- The order of the class of the first value. -/
def naturalSign (own : Value ω → Value ω → Ordering) (a b : Value ω) : Ordering :=
  match orderClass? a with
  | some c => c.sign own a b
  | none => .eq

theorem naturalSign_of_class {own : Value ω → Value ω → Ordering} {a b : Value ω} {c : OrderClass}
    (h : orderClass? a = some c) : naturalSign own a b = c.sign own a b := by
  rw [naturalSign, h]

theorem OrderClass.sign_swap {own : Value ω → Value ω → Ordering} {a b : Value ω}
    (h : own b a = (own a b).swap) {c : OrderClass} (ha : orderClass? a = some c)
    (hb : orderClass? b = some c) : c.sign own b a = (c.sign own a b).swap := by
  cases c with
  | kind k =>
      exact k.isOrderOn_members.swap a (mem_members_of_class ha) b (mem_members_of_class hb)
  | own => exact h

/-- Values of one class compare to a number with the sign that the order of the class gives, if the
orders that values bring do so. -/
theorem compareNatural_of_class {own : Value ω → Value ω → Ordering} {a b : Value ω}
    {c : OrderClass}
    (hown : c = .own → ∀ compareTo, a.ownOrder? = some compareTo →
      ∃ x, compareTo b = .ok (.number x) ∧ Number.HasSign x (own a b))
    (hca : orderClass? a = some c) (hcb : orderClass? b = some c) :
    ∃ x, compareNatural a b = .ok (.number x) ∧ Number.HasSign x (c.sign own a b) := by
  cases c with
  | kind k =>
      obtain ⟨x, hx, hsign⟩ := Value.exists_ofOrdering (ω := ω) (k.sign a b)
      refine ⟨x, ?_, hsign⟩
      rw [compareNatural_of_members (mem_members_of_class hca) (mem_members_of_class hcb), hx]
  | own =>
      obtain ⟨hdate, hbrings⟩ := orderClass?_eq_own.mp hca
      obtain ⟨-, hother⟩ := orderClass?_eq_own.mp hcb
      obtain ⟨compareTo, hcompare⟩ := Option.isSome_iff_exists.mp hbrings
      obtain ⟨x, hx, hsign⟩ := hown rfl compareTo hcompare
      refine ⟨x, ?_, hsign⟩
      have hdates : ¬(a.isDate = true ∧ b.isDate = true) := by simp [hdate]
      rw [compareNatural_of_orders hdates hcompare hother, hx]

/-- Each class is ordered if the values that bring an order are. -/
theorem OrderClass.isOrderOn {own : Value ω → Value ω → Ordering} {S : Set (Value ω)}
    (h : IsOrderOn own {v ∈ S | orderClass? v = some .own}) (c : OrderClass) :
    IsOrderOn (c.sign own) {v ∈ S | orderClass? v = some c} := by
  cases c with
  | kind k => exact k.isOrderOn_members.mono fun v hv => mem_members_of_class hv.2
  | own => exact h

end Arrange
