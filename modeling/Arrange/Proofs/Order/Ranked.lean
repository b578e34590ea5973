import Arrange.Proofs.Order.Common
import Arrange.Proofs.Order.Comparability

/-!
# How two values are ranked

With absent values first, two values are ranked when they are the same, when one is absent and when
they are of one class; other values are refused. `Ranked` says how a comparison comes out,
`Unranked` that it is refused. The values of one class and the absent values are all ranked, as an
order has it (`OrderClass.ranked_of_optional`). Among values of any classes it does not matter which
of two comes first, nor which of two that tie is asked about (`Ranked.comparesAlike`).
-/

set_option autoImplicit false

namespace Arrange

open Std

variable {ω : Type} [Objects ω]

/-- The orders that the values of `S` bring give numbers, whose signs are `own` and order these
values. -/
structure LawfullyOrdered (own : Value ω → Value ω → Ordering) (S : Set (Value ω)) : Prop where
  answers : ∀ a ∈ S, ∀ b ∈ S, orderClass? a = some .own → orderClass? b = some .own →
    ∀ compareTo, a.ownOrder? = some compareTo →
      ∃ x, compareTo b = .ok (.number x) ∧ Number.HasSign x (own a b)
  isOrderOn : IsOrderOn own {v ∈ S | orderClass? v = some .own}

variable {own : Value ω → Value ω → Ordering} {S : Set (Value ω)} {a b : Value ω}

/-! ## Classes with the absent values -/

namespace OrderClass

/-- The values of a class and the absent values. -/
def optional (c : OrderClass) (S : Set (Value ω)) : Set (Value ω) :=
  {v ∈ S | v.isAbsent = true ∨ orderClass? v = some c}

/-- How two of them compare, absent values first. -/
def optionalSign (own : Value ω → Value ω → Ordering) (c : OrderClass) (a b : Value ω) : Ordering :=
  (absentOrder? a b false).getD (c.sign own a b)

theorem mem_class {c : OrderClass} {v : Value ω} (h : v ∈ c.optional S)
    (hpresent : v.isAbsent = false) : orderClass? v = some c := by
  rcases h.2 with habsent | hclass
  · exact absurd (hpresent.symm.trans habsent) Bool.false_ne_true
  · exact hclass

theorem isOrderOn_optional (h : LawfullyOrdered own S) (c : OrderClass) :
    IsOrderOn (c.optionalSign own) (c.optional S) := by
  apply IsOrderOn.withAbsent
  apply (c.isOrderOn h.isOrderOn).mono
  rintro v ⟨hv, hpresent⟩
  exact ⟨hv.1, mem_class hv hpresent⟩

end OrderClass

/-! ## Comparing -/

variable [DecidableEq ω]

/-- With absent values first the comparison of two values gives a number with the sign `o`. -/
def Ranked (a b : Value ω) (o : Ordering) : Prop :=
  ∃ x : Float, compareOptional a b false = .ok (.number x) ∧ Number.HasSign x o

/-- Two values are refused for having no natural order in common. -/
def Unranked (a b : Value ω) : Prop := compareOptional a b false = .error (.notComparable a b)

/-- A value compares with two others in the same way, or is refused with both. -/
def ComparesAlike (v a b : Value ω) : Prop :=
  (∃ o, Ranked v a o ∧ Ranked v b o) ∨ (Unranked v a ∧ Unranked v b)

theorem Ranked.unique {o p : Ordering} (h : Ranked a b o) (h' : Ranked a b p) : o = p := by
  obtain ⟨x, hx, hsign⟩ := h
  obtain ⟨y, hy, hsign'⟩ := h'
  have hxy : x = y := by simpa [hx] using hy
  rw [hxy] at hsign
  exact Option.some.inj (hsign.symm.trans hsign')

theorem ranked_self (a : Value ω) : Ranked a a .eq := by
  obtain ⟨x, hx, hsign⟩ := Value.exists_ofOrdering (ω := ω) .eq
  exact ⟨x, by rw [compareOptional, if_pos rfl, hx], hsign⟩

theorem ranked_of_absent {o : Ordering} (h : absentOrder? a b false = some o) : Ranked a b o := by
  by_cases hab : a = b
  · subst hab
    rw [eq_of_absentOrder?_self h]
    exact ranked_self a
  · obtain ⟨x, hx, hsign⟩ := Value.exists_ofOrdering (ω := ω) o
    refine ⟨x, ?_, hsign⟩
    rw [compareOptional, if_neg hab, h]
    exact congrArg Except.ok hx

theorem compareOptional_of_present (hab : a ≠ b) (ha : a.isAbsent = false)
    (hb : b.isAbsent = false) : compareOptional a b false = compareNatural a b := by
  rw [compareOptional, if_neg hab, absentOrder?_eq_none_iff.mpr ⟨ha, hb⟩]

/-- Present values of one class are ranked by the order of the class. -/
theorem ranked_of_class (h : LawfullyOrdered own S) {c : OrderClass} (ha : a ∈ S) (hb : b ∈ S)
    (hpa : a.isAbsent = false) (hpb : b.isAbsent = false)
    (hca : orderClass? a = some c) (hcb : orderClass? b = some c) :
    Ranked a b (c.sign own a b) := by
  by_cases hab : a = b
  · subst hab
    rw [(OrderClass.isOrderOn h.isOrderOn c).self a ⟨ha, hca⟩]
    exact ranked_self a
  · have hown : c = .own → ∀ compareTo, a.ownOrder? = some compareTo →
        ∃ x, compareTo b = .ok (.number x) ∧ Number.HasSign x (own a b) := by
      rintro rfl
      exact h.answers a ha b hb hca hcb
    obtain ⟨x, hx, hsign⟩ := compareNatural_of_class hown hca hcb
    exact ⟨x, by rw [compareOptional_of_present hab hpa hpb, hx], hsign⟩

/-- Different present values of different classes are refused, unless one is a date that brings an
order. -/
theorem unranked_of_classes (hdates : a.isDate = true → bringsOrder a = false)
    (hdates' : b.isDate = true → bringsOrder b = false) (hab : a ≠ b) (hpa : a.isAbsent = false)
    (hpb : b.isAbsent = false) (hclass : haveCommonOrder a b = false) : Unranked a b := by
  rw [Unranked, compareOptional_of_present hab hpa hpb]
  apply compareNatural_eq_error
  intro hcomparable
  have hcommon : haveCommonOrder a b = true := haveCommonOrder_iff_areComparable.mpr
    ⟨hcomparable, fun ha hb => ?_⟩
  · rw [hclass] at hcommon
    cases hcommon
  · have hnot {v : Value ω} (hv : v.isDate = true → bringsOrder v = false)
        (hbrings : bringsOrder v = true) : v.isDate = false :=
      Bool.eq_false_iff.mpr fun hdate => by simp [hv hdate] at hbrings
    rw [hnot hdates ha, hnot hdates' hb]

/-- The values of one class and the absent values are all ranked. -/
theorem OrderClass.ranked_of_optional (h : LawfullyOrdered own S) {c : OrderClass}
    (ha : a ∈ c.optional S) (hb : b ∈ c.optional S) : Ranked a b (c.optionalSign own a b) := by
  rw [optionalSign]
  cases habsent : absentOrder? a b false with
  | some o => exact ranked_of_absent habsent
  | none =>
      obtain ⟨hpa, hpb⟩ := absentOrder?_eq_none_iff.mp habsent
      exact ranked_of_class h ha.1 hb.1 hpa hpb (mem_class ha hpa) (mem_class hb hpb)

/-! ## All classes -/

section Mixed

variable (h : LawfullyOrdered own S) (hdates : ∀ v ∈ S, v.isDate = true → bringsOrder v = false)
  (ha : a ∈ S) (hb : b ∈ S)

include hdates

/-- Present values are refused where one is of a class and the other one is not. -/
theorem unranked_of_class {v w : Value ω} {c : OrderClass} (hv : v ∈ S) (hw : w ∈ S)
    (hpv : v.isAbsent = false) (hpw : w.isAbsent = false) (hcv : orderClass? v ≠ some c)
    (hcw : orderClass? w = some c) : Unranked v w := by
  refine unranked_of_classes (hdates v hv) (hdates w hw) ?_ hpv hpw ?_
  · rintro rfl
    exact hcv hcw
  · rw [Bool.eq_false_iff, Ne, haveCommonOrder_iff]
    rintro ⟨d, hdv, hdw⟩
    cases hcw.symm.trans hdw
    exact hcv hdv

include ha hb

/-- Different present values that are ranked are of one class. -/
theorem Ranked.exists_class {o : Ordering} (hranked : Ranked a b o) (hab : a ≠ b)
    (hpa : a.isAbsent = false) (hpb : b.isAbsent = false) :
    ∃ c, orderClass? a = some c ∧ orderClass? b = some c := by
  rw [← haveCommonOrder_iff]
  by_contra hnot
  obtain ⟨x, hx, -⟩ := hranked
  have hrefused := unranked_of_classes (hdates a ha) (hdates b hb) hab hpa hpb
    (Bool.eq_false_of_not_eq_true hnot)
  rw [Unranked, hx] at hrefused
  cases hrefused

include h

/-- Two values are ranked both ways round or refused both ways round. -/
theorem ranked_or_unranked :
    (∃ o, Ranked a b o ∧ Ranked b a o.swap) ∨ (Unranked a b ∧ Unranked b a) := by
  by_cases hab : a = b
  · subst hab
    exact .inl ⟨.eq, ranked_self a, ranked_self a⟩
  cases habsent : absentOrder? a b false with
  | some o =>
      refine .inl ⟨o, ranked_of_absent habsent, ranked_of_absent ?_⟩
      rw [absentOrder?_swap, habsent]
      rfl
  | none =>
      obtain ⟨hpa, hpb⟩ := absentOrder?_eq_none_iff.mp habsent
      by_cases hcommon : haveCommonOrder a b = true
      · obtain ⟨c, hca, hcb⟩ := (haveCommonOrder_iff a b).mp hcommon
        refine .inl ⟨c.sign own a b, ranked_of_class h ha hb hpa hpb hca hcb, ?_⟩
        rw [← (OrderClass.isOrderOn h.isOrderOn c).swap a ⟨ha, hca⟩ b ⟨hb, hcb⟩]
        exact ranked_of_class h hb ha hpb hpa hcb hca
      · have hclass : haveCommonOrder a b = false := Bool.eq_false_of_not_eq_true hcommon
        refine .inr ⟨?_, ?_⟩
        · exact unranked_of_classes (hdates a ha) (hdates b hb) hab hpa hpb hclass
        · rw [haveCommonOrder_comm] at hclass
          exact unranked_of_classes (hdates b hb) (hdates a ha) (Ne.symm hab) hpb hpa hclass

omit hb in
theorem comparesAlike_self {v : Value ω} (hv : v ∈ S) : ComparesAlike v a a := by
  rcases ranked_or_unranked h hdates hv ha with ⟨o, hva, -⟩ | ⟨hva, -⟩
  · exact .inl ⟨o, hva, hva⟩
  · exact .inr ⟨hva, hva⟩

/-- It does not matter which of two values that tie another one is compared with. -/
theorem Ranked.comparesAlike (htie : Ranked a b .eq) {v : Value ω} (hv : v ∈ S) :
    ComparesAlike v a b := by
  by_cases hab : a = b
  · subst hab
    exact comparesAlike_self h hdates ha hv
  cases hpa : a.isAbsent <;> cases hpb : b.isAbsent
  case false.true | true.false =>
      -- an absent value ties with absent ones only
      have hranked := ranked_of_absent (a := a) (b := b) (by rw [absentOrder?, hpa, hpb])
      cases htie.unique hranked
  case true.true =>
      have hsame : absentOrder? v a false = absentOrder? v b false := by
        rw [absentOrder?, absentOrder?, hpa, hpb]
      obtain ⟨o, ho⟩ : ∃ o, absentOrder? v a false = some o := by
        rw [absentOrder?, hpa]
        cases v.isAbsent <;> exact ⟨_, rfl⟩
      exact .inl ⟨o, ranked_of_absent ho, ranked_of_absent (hsame ▸ ho)⟩
  case false.false =>
      obtain ⟨c, hca, hcb⟩ := htie.exists_class hdates ha hb hab hpa hpb
      cases hpv : v.isAbsent with
      | true =>
          exact .inl ⟨.lt, ranked_of_absent (by rw [absentOrder?, hpv, hpa]; rfl),
            ranked_of_absent (by rw [absentOrder?, hpv, hpb]; rfl)⟩
      | false =>
          by_cases hcv : orderClass? v = some c
          · have hsign : c.sign own v a = c.sign own v b :=
              (OrderClass.isOrderOn h.isOrderOn c).congr_right ⟨ha, hca⟩ ⟨hb, hcb⟩ ⟨hv, hcv⟩
                (htie.unique (ranked_of_class h ha hb hpa hpb hca hcb)).symm
            refine .inl ⟨_, ranked_of_class h hv ha hpv hpa hcv hca, ?_⟩
            rw [hsign]
            exact ranked_of_class h hv hb hpv hpb hcv hcb
          · exact .inr ⟨unranked_of_class hdates hv ha hpv hpa hcv hca,
              unranked_of_class hdates hv hb hpv hpb hcv hcb⟩

end Mixed

end Arrange
