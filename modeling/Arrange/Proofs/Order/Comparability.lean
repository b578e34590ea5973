import Arrange.Catalog
import Arrange.Proofs.Order.Kind
import Arrange.Report

/-!
# Which values can be compared

Two values are comparable (`AreComparable`) when they are primitives of one kind that has an order,
when both are dates, or when both bring an order. `compareNatural` compares exactly these values and
refuses all others. The test `haveCommonOrder` looks for dates first and so misses one case: a date
that brings an order, beside a value that is no date and brings one too.
-/

set_option autoImplicit false

namespace Arrange

variable {ω : Type} [Objects ω]

/-- Two primitives of one kind that has an order, two dates, or two values that bring an order. -/
def AreComparable (a b : Value ω) : Prop :=
  sameOrderedKind a b = true ∨ (a.isDate = true ∧ b.isDate = true) ∨
    (bringsOrder a = true ∧ bringsOrder b = true)

section Cases

variable {a b : Value ω}

/-! ## The comparison -/

theorem exists_compareNatural_of_sameOrderedKind (h : sameOrderedKind a b = true) :
    ∃ o, compareNatural a b = .ok (.ofOrdering o) := by
  cases a <;> cases b <;> cases h <;> exact ⟨_, rfl⟩

/-- All but two primitives of one kind are compared as objects are. -/
theorem compareNatural_eq_compareObjects (h : sameOrderedKind a b = false) :
    compareNatural a b = compareObjects a b := by
  cases a <;> cases b <;> first | rfl | cases h

/-- Comparable values are compared, if the order that the first one brings does not fail. -/
theorem AreComparable.exists_compareNatural (h : AreComparable a b)
    (hown : ∀ compareTo, a.ownOrder? = some compareTo → ∃ r, compareTo b = .ok r) :
    ∃ r, compareNatural a b = .ok r := by
  by_cases hkind : sameOrderedKind a b = true
  · obtain ⟨o, ho⟩ := exists_compareNatural_of_sameOrderedKind hkind
    exact ⟨_, ho⟩
  · by_cases hdates : a.isDate = true ∧ b.isDate = true
    · obtain ⟨s, hs⟩ := Option.isSome_iff_exists.mp hdates.1
      obtain ⟨t, ht⟩ := Option.isSome_iff_exists.mp hdates.2
      rw [compareNatural_eq_compareObjects (Bool.eq_false_of_not_eq_true hkind)]
      exact ⟨_, compareObjects_of_time hs ht⟩
    · obtain ⟨ha, hb⟩ := (h.resolve_left hkind).resolve_left hdates
      obtain ⟨compareTo, hcompare⟩ := Option.isSome_iff_exists.mp ha
      rw [compareNatural_of_orders hdates hcompare hb]
      exact hown compareTo hcompare

theorem compareNatural_eq_error (h : ¬AreComparable a b) :
    compareNatural a b = .error (.notComparable a b) := by
  unfold AreComparable at h
  rw [not_or, not_or] at h
  obtain ⟨hkind, hdates, horders⟩ := h
  rw [compareNatural_eq_compareObjects (Bool.eq_false_of_not_eq_true hkind)]
  exact compareObjects_eq_error hdates horders

/-! ## The test -/

/-- A primitive is no date and brings no order. -/
theorem methodless_of_sameOrderedKind (h : sameOrderedKind a b = true) :
    (a.isDate = false ∧ b.isDate = false) ∧ bringsOrder a = false ∧ bringsOrder b = false := by
  cases a <;> cases b <;> cases h <;> exact ⟨⟨rfl, rfl⟩, rfl, rfl⟩

/-- The test takes comparable values, unless both bring an order and only one of them is a date. -/
theorem haveCommonOrder_iff_areComparable :
    haveCommonOrder a b = true ↔ AreComparable a b ∧
      (bringsOrder a = true → bringsOrder b = true → a.isDate = b.isDate) := by
  by_cases hkind : sameOrderedKind a b = true
  · obtain ⟨⟨ha, hb⟩, ha', hb'⟩ := methodless_of_sameOrderedKind hkind
    simp [haveCommonOrder, AreComparable, hkind, ha, hb, ha', hb']
  · unfold haveCommonOrder AreComparable
    cases a.isDate <;> cases b.isDate <;> cases bringsOrder a <;> cases bringsOrder b <;>
      simp [hkind]

end Cases

/-! ## Test and comparison -/

/-- Where the order that the first value brings does not fail, exactly the comparable values are
compared and all others are refused under a code. The test holds for the values that are compared,
except where both bring an order and only one of them is a date. -/
theorem haveCommonOrder_iff_compared_unless_one_is_a_date (a b : Value ω)
    (hown : ∀ compareTo, a.ownOrder? = some compareTo → ∃ r, compareTo b = .ok r) :
    ((∃ r, compareNatural a b = .ok r) ↔ AreComparable a b) ∧
    (¬AreComparable a b → ∃ (fault : Fault ω) (report : Report ω),
      compareNatural a b = .error fault ∧ fault.report? = some report ∧
        report.code = .notComparable) ∧
    (haveCommonOrder a b = true ↔ (∃ r, compareNatural a b = .ok r) ∧
      ¬(bringsOrder a = true ∧ bringsOrder b = true ∧ a.isDate ≠ b.isDate)) := by
  have hcompared : (∃ r, compareNatural a b = .ok r) ↔ AreComparable a b := by
    constructor
    · rintro ⟨r, hr⟩
      by_contra h
      rw [compareNatural_eq_error h] at hr
      cases hr
    · intro h
      exact h.exists_compareNatural hown
  refine ⟨hcompared, fun h => ⟨_, _, compareNatural_eq_error h, rfl, rfl⟩, ?_⟩
  rw [hcompared, haveCommonOrder_iff_areComparable]
  apply and_congr_right
  intro _
  tauto

/-- A date that brings an order and a version compare with each other both ways round, by the order
that the first one brings, but the test passes over them. -/
theorem haveCommonOrder_misses_date_beside_version :
    let catalog : Catalog := #[
      ⟨none, .date 0, [], none, some (.returns (.number (-1))), none, none, none⟩,
      .ofNature none (.version (.number 1) (.number 0))]
    let _ : Objects Item := catalog.objects
    let date : Value Item := .object ⟨0⟩
    let version : Value Item := .object ⟨1⟩
    (bringsOrder date = true ∧ bringsOrder version = true) ∧
      compareNatural date version = .ok (.number (-1)) ∧
      (∃ r, compareNatural version date = .ok r) ∧
      ¬(haveCommonOrder date version = true ↔ ∃ r, compareNatural date version = .ok r) ∧
      ¬(haveCommonOrder version date = true ↔ ∃ r, compareNatural version date = .ok r) := by
  intro catalog _ date version
  have hdate : compareNatural date version = .ok (.number (-1)) := rfl
  have hversion : ∃ r, compareNatural version date = .ok r := ⟨_, rfl⟩
  have htest : haveCommonOrder date version = false ∧ haveCommonOrder version date = false :=
    ⟨rfl, rfl⟩
  refine ⟨⟨rfl, rfl⟩, hdate, hversion, ?_, ?_⟩
  · rw [htest.1]
    exact fun h => Bool.false_ne_true (h.mpr ⟨_, hdate⟩)
  · rw [htest.2]
    exact fun h => Bool.false_ne_true (h.mpr hversion)

/-- Two dates of which the first one brings an order: they go by their times, and the test holds. -/
theorem haveCommonOrder_iff_compared_for_dates :
    let catalog : Catalog := #[
      ⟨none, .date 5, [], none, some (.returns (.number 1)), none, none, none⟩,
      .ofNature none (.date 7)]
    let _ : Objects Item := catalog.objects
    let a : Value Item := .object ⟨0⟩
    let b : Value Item := .object ⟨1⟩
    (∀ compareTo, a.ownOrder? = some compareTo → ∃ r, compareTo b = .ok r) ∧
      compareNatural a b = .ok (.number (-1)) ∧ AreComparable a b ∧ haveCommonOrder a b = true := by
  intro catalog _ a b
  have hown : ∀ compareTo, a.ownOrder? = some compareTo → ∃ r, compareTo b = .ok r := by
    intro compareTo h
    cases h
    exact ⟨_, rfl⟩
  have hcompare : compareNatural a b = .ok (.number (-1)) := rfl
  obtain ⟨hcompared, -, htest⟩ := haveCommonOrder_iff_compared_unless_one_is_a_date a b hown
  have hother : ¬(bringsOrder a = true ∧ bringsOrder b = true ∧ a.isDate ≠ b.isDate) := by
    rintro ⟨-, -, hdates⟩
    exact hdates rfl
  exact ⟨hown, hcompare, hcompared.mp ⟨_, hcompare⟩, htest.mpr ⟨⟨_, hcompare⟩, hother⟩⟩

end Arrange
