import Arrange.Catalog
import Arrange.Proofs.Order.Universal

/-!
# How far the universal comparison is transitive

Each way to rank two values is transitive among values that are all ranked in this way, but a chain
of three values may mix the ways, and then `compareUniversal` may run in a circle
(`compareUniversal_circles`). It only does so where a natural order or an equality ranks two of the
values against their hash codes and texts (`compareUniversal_transitive_unless_tangled`).
-/

set_option autoImplicit false

namespace Arrange

open Std

variable {ω : Type} [DecidableEq ω] [Objects ω]

/-- Three present values, not all of one natural order, of which some are ranked by a natural order
or by an equality against their hash codes and texts. These put the first two or the last two of
them the other way round, or they put the outer two in line, which a natural order ranks. -/
structure IdentityTable.Tangled (t : IdentityTable ω) (a b c : Value ω) : Prop where
  present : a.isAbsent = false ∧ b.isAbsent = false ∧ c.isAbsent = false
  mixed : ¬(haveCommonOrder a b = true ∧ haveCommonOrder b c = true)
  clash :
    ((haveCommonOrder a b = true ∨ accepts a b = true) ∧ t.order a b = .gt) ∨
    ((haveCommonOrder b c = true ∨ accepts b c = true) ∧ t.order b c = .gt) ∨
    (haveCommonOrder a c = true ∧ (t.order a c).isLE)

/-! ## Chains of outcomes -/

section Signs

variable {own : Value ω → Value ω → Ordering} {absentLast : Bool} {t : IdentityTable ω}

/-- A chain in which a value is absent goes through. -/
theorem sign_trans_of_absent {a b c : Value ω}
    (h : ¬(a.isAbsent = false ∧ b.isAbsent = false ∧ c.isAbsent = false))
    (hab : (t.sign own absentLast a b).isLE) (hbc : (t.sign own absentLast b c).isLE) :
    (t.sign own absentLast a c).isLE := by
  -- what involves an absent value is decided by `absentOrder?`
  have hsign : ∀ v w : Value ω, ∀ o, absentOrder? v w absentLast = some o →
      t.sign own absentLast v w = o := fun v w o => sign_of_absent
  cases hna : a.isAbsent <;> cases hnb : b.isAbsent <;> cases hnc : c.isAbsent <;>
    simp only [hna, hnb, hnc, and_self, not_true_eq_false] at h <;>
    cases absentLast <;>
    simp_all [absentOrder?]

/-- Within one class values are ranked by the order of the class, also a value with itself. -/
theorem sign_of_class {S : Set (Value ω)}
    (horder : IsOrderOn own {v ∈ S | orderClass? v = some .own}) {a b : Value ω} (ha : a ∈ S)
    (hpa : a.isAbsent = false) (hpb : b.isAbsent = false) {c : OrderClass}
    (hca : orderClass? a = some c) (hcb : orderClass? b = some c) :
    t.sign own absentLast a b = c.sign own a b := by
  rw [sign_of_present hpa hpb, if_pos ((haveCommonOrder_iff a b).mpr ⟨c, hca, hcb⟩),
    naturalSign_of_class hca]
  by_cases hab : a = b
  · rw [if_pos hab, ← hab]
    exact ((OrderClass.isOrderOn horder c).self a ⟨ha, hca⟩).symm
  · rw [if_neg hab]

/-- Two values that are not ranked against their hash codes and texts follow these. -/
theorem order_isLE_of_sign {a b : Value ω} (ha : a.isAbsent = false) (hb : b.isAbsent = false)
    (h : (t.sign own absentLast a b).isLE)
    (hclash : ¬((haveCommonOrder a b = true ∨ accepts a b = true) ∧ t.order a b = .gt)) :
    (t.order a b).isLE := by
  rw [sign_of_present ha hb] at h
  by_cases hab : a = b
  · subst hab
    exact ReflCmp.isLE_rfl
  · rw [if_neg hab] at h
    by_cases hranked : haveCommonOrder a b = true ∨ accepts a b = true
    · rw [← Ordering.ne_gt_iff_isLE]
      exact fun hgt => hclash ⟨hranked, hgt⟩
    · rw [not_or] at hranked
      rwa [if_neg hranked.1, if_neg hranked.2] at h

/-- The outcomes of a chain of three values go through unless the values are tangled. -/
theorem sign_trans_or_tangled {a b c : Value ω}
    (horder : IsOrderOn own {v ∈ ({a, b, c} : Set (Value ω)) | orderClass? v = some .own})
    (hab : (t.sign own absentLast a b).isLE) (hbc : (t.sign own absentLast b c).isLE) :
    (t.sign own absentLast a c).isLE ∨ t.Tangled a b c := by
  by_cases hpresent : a.isAbsent = false ∧ b.isAbsent = false ∧ c.isAbsent = false
  · -- all present: one class decides all three pairs, or they go by hash codes and texts
    obtain ⟨hpa, hpb, hpc⟩ := hpresent
    have ha : a ∈ ({a, b, c} : Set (Value ω)) := by simp
    have hb : b ∈ ({a, b, c} : Set (Value ω)) := by simp
    have hc : c ∈ ({a, b, c} : Set (Value ω)) := by simp
    by_cases hmixed : haveCommonOrder a b = true ∧ haveCommonOrder b c = true
    · -- all three are of one class, for a value has at most one
      obtain ⟨k, hka, hkb⟩ := (haveCommonOrder_iff a b).mp hmixed.1
      obtain ⟨l, hlb, hkc⟩ := (haveCommonOrder_iff b c).mp hmixed.2
      obtain rfl : k = l := Option.some.inj (hkb.symm.trans hlb)
      rw [sign_of_class horder ha hpa hpb hka hkb] at hab
      rw [sign_of_class horder hb hpb hpc hkb hkc] at hbc
      rw [sign_of_class horder ha hpa hpc hka hkc]
      exact Or.inl ((OrderClass.isOrderOn horder k).trans a ⟨ha, hka⟩ b ⟨hb, hkb⟩ c ⟨hc, hkc⟩
        hab hbc)
    · by_cases hclash : ((haveCommonOrder a b = true ∨ accepts a b = true) ∧ t.order a b = .gt) ∨
          ((haveCommonOrder b c = true ∨ accepts b c = true) ∧ t.order b c = .gt) ∨
          (haveCommonOrder a c = true ∧ (t.order a c).isLE)
      · exact Or.inr ⟨⟨hpa, hpb, hpc⟩, hmixed, hclash⟩
      · rw [not_or, not_or] at hclash
        obtain ⟨hfirst, hlast, houter⟩ := hclash
        have hle : (t.order a c).isLE :=
          TransCmp.isLE_trans (order_isLE_of_sign hpa hpb hab hfirst)
            (order_isLE_of_sign hpb hpc hbc hlast)
        -- `houter` leaves the outer two no natural order, and an equality makes them a tie
        left
        rw [sign_of_present hpa hpc]
        by_cases hac : a = c
        · rw [if_pos hac]
          rfl
        · rw [if_neg hac, if_neg fun hcommon => houter ⟨hcommon, hle⟩]
          by_cases haccepts : accepts a c = true
          · rw [if_pos haccepts]
            rfl
          · rwa [if_neg haccepts]
  · exact Or.inl (sign_trans_of_absent hpresent hab hbc)

end Signs

/-! ## Circles -/

/-- Comparing runs in a circle although the methods of the values are as lawful as can be. A text is
hashed between the two truth values, which the natural order ranks the other way round; and of two
equal points, each of which accepts just these two, one is hashed before another object and one
after it. -/
theorem compareUniversal_circles :
    let _ : Objects Item := Catalog.objects #[.ofNature none (.point (.bigint 0) (.bigint 0)),
      .ofNature none .record, .ofNature none (.point (.bigint 0) (.bigint 0))]
    let own : Value Item → Value Item → Ordering := fun _ _ => .eq
    let yes : Value Item := .bool true
    let text : Value Item := .text "aa"
    let no : Value Item := .bool false
    let point : Value Item := .object ⟨0⟩
    let other : Value Item := .object ⟨1⟩
    let equal : Value Item := .object ⟨2⟩
    let t : IdentityTable Item := IdentityTable.after ∅ [.hash point, .hash other, .hash equal]
    (Obliging own {yes, text, no} ∧ t.Knows yes ∧ t.Knows text ∧ t.Knows no ∧
      (compareUniversal yes text false).exec t = (.ok (.number (-1)), t) ∧
      (compareUniversal text no false).exec t = (.ok (.number (-1)), t) ∧
      (compareUniversal yes no false).exec t = (.ok (.number 1), t)) ∧
    Obliging own {equal, point, other} ∧ t.Knows equal ∧ t.Knows point ∧ t.Knows other ∧
      (∀ v ∈ ({point, equal} : Set (Value Item)), ∀ w ∈ ({point, other, equal} : Set (Value Item)),
        acceptsAsEqual v w = .ok (decide (w ≠ other))) ∧
      (compareUniversal equal point false).exec t = (.ok (.number 0), t) ∧
      (compareUniversal point other false).exec t = (.ok (.number (-1)), t) ∧
      (compareUniversal equal other false).exec t = (.ok (.number 1), t) := by
  intro _ own yes text no point other equal t
  have hprimitives : Obliging own {yes, text, no} := by
    apply Obliging.of_methodless
    rintro v (rfl | rfl | rfl) <;> exact ⟨by decide, rfl, rfl⟩
  have hpoints : Obliging own {equal, point, other} := by
    refine ⟨?_, ?_, ?_⟩
    · rintro v (rfl | rfl | rfl) w - hv <;> cases hv
    · rintro v (rfl | rfl | rfl) w (rfl | rfl | rfl) equals hequals <;> cases hequals <;>
        exact ⟨_, rfl⟩
    · rintro v (rfl | rfl | rfl) code hcode <;> cases hcode
  have hequality : ∀ v ∈ ({point, equal} : Set (Value Item)),
      ∀ w ∈ ({point, other, equal} : Set (Value Item)),
        acceptsAsEqual v w = .ok (decide (w ≠ other)) := by
    rintro v (rfl | rfl) w (rfl | rfl | rfl) <;> rfl
  have hknows : ∀ v ∈ [yes, text, no, equal, point, other], t.Knows v := by
    unfold IdentityTable.Knows
    decide
  simp only [List.forall_mem_cons] at hknows
  obtain ⟨hyes, htext, hno, hequal, hpoint, hother, -⟩ := hknows
  refine ⟨⟨hprimitives, hyes, htext, hno, ?_, ?_, ?_⟩, hpoints, hequal, hpoint, hother,
    hequality, ?_, ?_, ?_⟩
  all_goals rfl

/-! ## Chains of comparisons -/

/-- In a table in which three values were hashed, comparing them gives numbers, and if the first is
at most the second and the second at most the third, then the first is at most the third, unless
the three are tangled. -/
theorem compareUniversal_transitive_unless_tangled {own : Value ω → Value ω → Ordering}
    {a b c : Value ω} (h : Obliging own {a, b, c})
    (horder : IsOrderOn own {v ∈ ({a, b, c} : Set (Value ω)) | orderClass? v = some .own})
    (absentLast : Bool) {t : IdentityTable ω} (ha : t.Knows a) (hb : t.Knows b)
    (hc : t.Knows c) :
    ∃ x y z : Float, (compareUniversal a b absentLast).exec t = (.ok (.number x), t) ∧
      (compareUniversal b c absentLast).exec t = (.ok (.number y), t) ∧
      (compareUniversal a c absentLast).exec t = (.ok (.number z), t) ∧
      (x ≤ 0 → y ≤ 0 → z ≤ 0 ∨ t.Tangled a b c) := by
  have hma : a ∈ ({a, b, c} : Set (Value ω)) := by simp
  have hmb : b ∈ ({a, b, c} : Set (Value ω)) := by simp
  have hmc : c ∈ ({a, b, c} : Set (Value ω)) := by simp
  obtain ⟨x, hx, hsx⟩ := h.compareUniversal_of_knows hma hmb absentLast ha hb
  obtain ⟨y, hy, hsy⟩ := h.compareUniversal_of_knows hmb hmc absentLast hb hc
  obtain ⟨z, hz, hsz⟩ := h.compareUniversal_of_knows hma hmc absentLast ha hc
  refine ⟨x, y, z, hx, hy, hz, fun hle hle' => ?_⟩
  rw [hsz.le_zero_iff]
  exact sign_trans_or_tangled horder (hsx.le_zero_iff.mp hle) (hsy.le_zero_iff.mp hle')

/-- A truth value, a text and an object hashed by identity: no two of them are ranked without
hashing, and comparing goes by their hash codes. -/
theorem compareUniversal_transitive_for_mixed_values :
    let _ : Objects Item := Catalog.objects #[.ofNature none .record]
    let own : Value Item → Value Item → Ordering := fun _ _ => .eq
    let a : Value Item := .bool true
    let b : Value Item := .text "aa"
    let c : Value Item := .object ⟨0⟩
    let t : IdentityTable Item := IdentityTable.after ∅ [.hash a, .hash b, .hash c]
    Obliging own {a, b, c} ∧
      IsOrderOn own {v ∈ ({a, b, c} : Set (Value Item)) | orderClass? v = some .own} ∧
      t.Knows a ∧ t.Knows b ∧ t.Knows c ∧ ¬t.Tangled a b c ∧
      ∃ x y z : Float, (compareUniversal a b true).exec t = (.ok (.number x), t) ∧
        (compareUniversal b c true).exec t = (.ok (.number y), t) ∧
        (compareUniversal a c true).exec t = (.ok (.number z), t) ∧ x ≤ 0 ∧ y ≤ 0 ∧ z ≤ 0 := by
  intro _ own a b c t
  have hobliging : Obliging own {a, b, c} := by
    apply Obliging.of_methodless
    rintro v (rfl | rfl | rfl) <;> exact ⟨by decide, rfl, rfl⟩
  have hown : IsOrderOn own {v ∈ ({a, b, c} : Set (Value Item)) | orderClass? v = some .own} :=
    IsOrderOn.indifferent _
  have hknows : t.Knows a ∧ t.Knows b ∧ t.Knows c := by
    unfold IdentityTable.Knows
    decide
  obtain ⟨ha, hb, hc⟩ := hknows
  have htangled : ¬t.Tangled a b c := by
    rintro ⟨-, -, ⟨h | h, -⟩ | ⟨h | h, -⟩ | ⟨h, -⟩⟩ <;> cases h
  obtain ⟨x, y, z, hx, hy, hz, htrans⟩ :=
    compareUniversal_transitive_unless_tangled hobliging hown true ha hb hc
  have hx' : x = -1 := Hashing.number_of_exec hx rfl
  have hy' : y = -1 := Hashing.number_of_exec hy rfl
  have hle : x ≤ 0 := by
    rw [hx']
    decide
  have hle' : y ≤ 0 := by
    rw [hy']
    decide
  exact ⟨hobliging, hown, ha, hb, hc, htangled, x, y, z, hx, hy, hz, hle, hle',
    (htrans hle hle').resolve_right htangled⟩

end Arrange
