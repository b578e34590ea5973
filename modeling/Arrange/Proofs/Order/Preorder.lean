import Arrange.Order.NullSafe
import Mathlib.Tactic

/-!
# Orders on a domain

`IsOrderOn sign D` says that `sign` compares the members of `D` as a total preorder: a member is
equal to itself, asking the other way round turns the answer round, and "at most" is transitive.
Nothing is said about other values. The ways to make new orders from others follow:
turning round, comparing keys, breaking ties, and ranking absent values before or after the rest.
-/

set_option autoImplicit false

namespace Arrange

open Std

/-- The members of `D` are compared as a total preorder. -/
structure IsOrderOn {α : Type} (sign : α → α → Ordering) (D : Set α) : Prop where
  self : ∀ a ∈ D, sign a a = .eq
  swap : ∀ a ∈ D, ∀ b ∈ D, sign b a = (sign a b).swap
  trans : ∀ a ∈ D, ∀ b ∈ D, ∀ c ∈ D, (sign a b).isLE → (sign b c).isLE → (sign a c).isLE

namespace IsOrderOn

variable {α β : Type} {sign sign' : α → α → Ordering} {D E : Set α}

/-- On the type of the members an order is a transitive comparison. -/
theorem iff_transCmp :
    IsOrderOn sign D ↔ TransCmp (fun a b : D => sign a.1 b.1) := by
  constructor
  · intro h
    exact
      { eq_swap := fun {a b} => h.swap b.1 b.2 a.1 a.2
        isLE_trans := fun {a b c} => h.trans a.1 a.2 b.1 b.2 c.1 c.2 }
  · intro h
    refine ⟨fun a ha => ?_, fun a ha b hb => ?_, fun a ha b hb c hc hab hbc => ?_⟩
    · have hrefl : ReflCmp (fun a b : D => sign a.1 b.1) := inferInstance
      exact hrefl.compare_self (a := ⟨a, ha⟩)
    · exact h.eq_swap (a := ⟨b, hb⟩) (b := ⟨a, ha⟩)
    · exact h.isLE_trans (a := ⟨a, ha⟩) (b := ⟨b, hb⟩) (c := ⟨c, hc⟩) hab hbc

/-- A comparison that is transitive everywhere is an order on any domain. -/
theorem of_transCmp (h : TransCmp sign) (D : Set α) : IsOrderOn sign D where
  self _ _ := ReflCmp.compare_self
  swap _ _ _ _ := OrientedCmp.eq_swap
  trans _ _ _ _ _ _ hab hbc := h.isLE_trans hab hbc

theorem mono (h : IsOrderOn sign D) (hE : E ⊆ D) : IsOrderOn sign E where
  self a ha := h.self a (hE ha)
  swap a ha b hb := h.swap a (hE ha) b (hE hb)
  trans a ha b hb c hc := h.trans a (hE ha) b (hE hb) c (hE hc)

/-- Values that are compared through members of a domain. -/
theorem comap (f : β → α) {F : Set β} (h : IsOrderOn sign D) (hf : ∀ b ∈ F, f b ∈ D) :
    IsOrderOn (fun a b => sign (f a) (f b)) F where
  self a ha := h.self (f a) (hf a ha)
  swap a ha b hb := h.swap (f a) (hf a ha) (f b) (hf b hb)
  trans a ha b hb c hc := h.trans (f a) (hf a ha) (f b) (hf b hb) (f c) (hf c hc)

/-- The order turned round. -/
theorem reverse (h : IsOrderOn sign D) : IsOrderOn (fun a b => sign b a) D where
  self a ha := h.self a ha
  swap a ha b hb := h.swap b hb a ha
  trans a ha b hb c hc hab hbc := h.trans c hc b hb a ha hbc hab

/-- The order in which all are equal. -/
theorem indifferent (D : Set α) : IsOrderOn (fun _ _ => .eq) D where
  self _ _ := rfl
  swap _ _ _ _ := rfl
  trans _ _ _ _ _ _ _ _ := rfl

/-- An order whose ties another one breaks. -/
theorem breakTies (h : IsOrderOn sign D) (h' : IsOrderOn sign' D) :
    IsOrderOn (fun a b => (sign a b).then (sign' a b)) D := by
  -- the library knows it of comparisons of a whole type, here that of the members
  have hD : TransCmp (fun a b : D => sign a.1 b.1) := iff_transCmp.mp h
  have hD' : TransCmp (fun a b : D => sign' a.1 b.1) := iff_transCmp.mp h'
  exact iff_transCmp.mpr (inferInstanceAs
    (TransCmp (compareLex (fun a b : D => sign a.1 b.1) (fun a b : D => sign' a.1 b.1))))

/-- To compare with a member is to compare with any that ties with it. -/
theorem congr_right (h : IsOrderOn sign D) {a b v : α} (ha : a ∈ D) (hb : b ∈ D) (hv : v ∈ D)
    (hab : sign a b = .eq) : sign v a = sign v b := by
  have hD : TransCmp (fun a b : D => sign a.1 b.1) := iff_transCmp.mp h
  exact hD.congr_right (a := ⟨v, hv⟩) (b := ⟨a, ha⟩) (c := ⟨b, hb⟩) hab

/-- An order on a domain is that of a comparison which is transitive everywhere: all other values
tie with each other and come last. -/
theorem exists_transCmp (h : IsOrderOn sign D) :
    ∃ cmp : α → α → Ordering, TransCmp cmp ∧ ∀ a ∈ D, ∀ b ∈ D, cmp a b = sign a b := by
  classical
  let cmp : α → α → Ordering := fun a b =>
    if a ∈ D then (if b ∈ D then sign a b else .lt) else (if b ∈ D then .gt else .eq)
  have hswap : ∀ a b, cmp a b = (cmp b a).swap := by
    intro a b
    by_cases ha : a ∈ D <;> by_cases hb : b ∈ D <;> simp only [cmp, ha, hb, if_true, if_false]
    · exact h.swap b hb a ha
    all_goals rfl
  have htrans : ∀ a b c, (cmp a b).isLE → (cmp b c).isLE → (cmp a c).isLE := by
    intro a b c
    by_cases ha : a ∈ D <;> by_cases hb : b ∈ D <;> by_cases hc : c ∈ D <;>
      simp only [cmp, ha, hb, hc, if_true, if_false]
    · exact h.trans a ha b hb c hc
    all_goals simp
  refine ⟨cmp, { eq_swap := hswap _ _, isLE_trans := htrans _ _ _ }, fun a ha b hb => ?_⟩
  simp only [cmp, ha, hb, if_true]

end IsOrderOn

/-! ## Absent values -/

variable {ω : Type}

theorem absentOrder?_swap (a b : Value ω) (absentLast : Bool) :
    absentOrder? b a absentLast = (absentOrder? a b absentLast).map Ordering.swap := by
  unfold absentOrder?
  cases a.isAbsent <;> cases b.isAbsent <;> cases absentLast <;> rfl

/-- To exchange two values is to turn round which end absent values rank at. -/
theorem absentOrder?_not (a b : Value ω) (absentLast : Bool) :
    absentOrder? b a absentLast = absentOrder? a b (!absentLast) := by
  unfold absentOrder?
  cases a.isAbsent <;> cases b.isAbsent <;> cases absentLast <;> rfl

theorem absentOrder?_eq_none_iff {a b : Value ω} {absentLast : Bool} :
    absentOrder? a b absentLast = none ↔ a.isAbsent = false ∧ b.isAbsent = false := by
  unfold absentOrder?
  cases a.isAbsent <;> cases b.isAbsent <;> simp

/-- Absent values tie. -/
theorem eq_of_absentOrder?_self {a : Value ω} {absentLast : Bool} {o : Ordering}
    (h : absentOrder? a a absentLast = some o) : o = .eq := by
  unfold absentOrder? at h
  cases hna : a.isAbsent <;> simp [hna] at h
  exact h.symm

/-- Orders share the rank of absent values: what `absentOrder?` decides is decided by it, and all
else by the order of the present values. -/
theorem IsOrderOn.withAbsent {sign : Value ω → Value ω → Ordering} {D : Set (Value ω)}
    (absentLast : Bool) (h : IsOrderOn sign {v ∈ D | v.isAbsent = false}) :
    IsOrderOn (fun a b => (absentOrder? a b absentLast).getD (sign a b)) D := by
  refine ⟨fun a ha => ?_, fun a ha b hb => ?_, fun a ha b hb c hc => ?_⟩
  · cases hna : a.isAbsent with
    | true => simp [absentOrder?, hna]
    | false =>
        simp only [absentOrder?, hna, Option.getD_none]
        exact h.self a ⟨ha, hna⟩
  · cases hna : a.isAbsent <;> cases hnb : b.isAbsent <;>
      simp only [absentOrder?, hna, hnb, Option.getD_some, Option.getD_none]
    · exact h.swap a ⟨ha, hna⟩ b ⟨hb, hnb⟩
    · cases absentLast <;> rfl
    · cases absentLast <;> rfl
    · rfl
  -- where an absent value is involved, only the two flags and the three absences matter
  · cases hna : a.isAbsent <;> cases hnb : b.isAbsent <;> cases hnc : c.isAbsent <;>
      simp only [absentOrder?, hna, hnb, hnc, Option.getD_some, Option.getD_none]
    · exact h.trans a ⟨ha, hna⟩ b ⟨hb, hnb⟩ c ⟨hc, hnc⟩
    all_goals cases absentLast <;> simp

end Arrange
