import Arrange.Proofs.Order.Comparability
import Arrange.Proofs.Order.Universal

/-!
# The universal comparison extends the natural one

`compareUniversal` begins with the rules of `compareOptional`: the same value, the absent values,
and a natural order in common. Two values that these rules pass over (`PassedOver`) are left to
their equalities and hash codes (`compareByMethods`), and all others compare as `compareOptional`
compares them, which cannot even tell the identity table apart
(`compareUniversal_of_not_passedOver`). Unless a date brings an order, `compareOptional` refuses
exactly the values that are passed over. Main statement: `compareUniversal_extends_compareOptional`.
-/

set_option autoImplicit false

namespace Arrange

variable {ω : Type} [Objects ω]

/-! ## What the first rules leave over -/

/-- The rules that come before equalities and hash codes pass over two values: they are not the
same, neither is absent, and they have no natural order in common. -/
structure PassedOver (a b : Value ω) : Prop where
  distinct : a ≠ b
  present : a.isAbsent = false ∧ b.isAbsent = false
  noCommonOrder : haveCommonOrder a b = false

/-- The rules for two values that are passed over: the equality of either one, then the order by
hash code and text. -/
def compareByMethods [DecidableEq ω] (a b : Value ω) : Hashing ω (Value ω) := do
  if ← MonadExcept.ofExcept (eitherAccepts a b) then return .ofOrdering .eq
  else return .ofOrdering (← compareHashed a b)

section Cases

variable {a b : Value ω} {absentLast : Bool}

theorem PassedOver.absentOrder? (h : PassedOver a b) : absentOrder? a b absentLast = none :=
  absentOrder?_eq_none_iff.mpr h.present

/-- Values that are passed over have nothing to be compared by, unless one is a date that brings an
order. -/
theorem PassedOver.not_areComparable (h : PassedOver a b)
    (ha : a.isDate = true → bringsOrder a = false) (hb : b.isDate = true → bringsOrder b = false) :
    ¬AreComparable a b := by
  intro hcomparable
  have hdates : bringsOrder a = true → bringsOrder b = true → a.isDate = b.isDate := by
    intro hown hown'
    have hna : a.isDate = false := by simpa [hown] using ha
    have hnb : b.isDate = false := by simpa [hown'] using hb
    rw [hna, hnb]
  have hcommon : haveCommonOrder a b = true :=
    haveCommonOrder_iff_areComparable.mpr ⟨hcomparable, hdates⟩
  exact Bool.false_ne_true (h.noCommonOrder.symm.trans hcommon)

variable [DecidableEq ω]

theorem compareOptional_of_passedOver (h : PassedOver a b) (hcomparable : ¬AreComparable a b) :
    compareOptional a b absentLast = .error (.notComparable a b) := by
  rw [compareOptional, if_neg h.distinct, h.absentOrder?]
  exact compareNatural_eq_error hcomparable

theorem compareUniversal_of_passedOver (h : PassedOver a b) :
    compareUniversal a b absentLast = compareByMethods a b := by
  unfold compareUniversal compareByMethods
  simp only [if_neg h.distinct, h.absentOrder?, h.noCommonOrder]
  rfl

/-- For values that are passed over the equalities may settle it without hashing. -/
theorem immediate?_of_passedOver (h : PassedOver a b) :
    immediate? a b absentLast = match eitherAccepts a b with
      | .error fault => some (.error fault)
      | .ok true => some (.ok (.ofOrdering .eq))
      | .ok false => none := by
  unfold immediate?
  simp only [if_neg h.distinct, h.absentOrder?, h.noCommonOrder]
  rfl

/-- For values that are not passed over nothing is hashed. -/
theorem immediate?_of_not_passedOver (h : ¬PassedOver a b) :
    immediate? a b absentLast = some (compareOptional a b absentLast) := by
  unfold immediate? compareOptional
  by_cases hab : a = b
  · rw [if_pos hab, if_pos hab]
  · rw [if_neg hab, if_neg hab]
    cases habsent : absentOrder? a b absentLast with
    | some o => rfl
    | none =>
        -- the one rule that is left before the equalities is the natural order
        have hcommon : haveCommonOrder a b = true := by
          by_contra hnot
          exact h ⟨hab, absentOrder?_eq_none_iff.mp habsent, Bool.eq_false_of_not_eq_true hnot⟩
        exact if_pos hcommon

/-- Values that are not passed over compare as values that may be absent do, faults included. -/
theorem compareUniversal_of_not_passedOver (h : ¬PassedOver a b) :
    compareUniversal a b absentLast = MonadExcept.ofExcept (compareOptional a b absentLast) := by
  apply Hashing.ext
  intro t
  rw [compareUniversal_exec, immediate?_of_not_passedOver h, Hashing.exec_ofExcept]

end Cases

/-! ## The extension -/

/-- Unless one of two values is a date that brings an order: what `compareOptional` gives for them
`compareUniversal` gives too, and leaves the identity table as it is. Only values that are passed
over come to the equalities and hash codes, and these `compareOptional` refuses under a code. All
others both compare alike, whether they give a result or fail. -/
theorem compareUniversal_extends_compareOptional [DecidableEq ω] {a b : Value ω}
    (ha : a.isDate = true → bringsOrder a = false) (hb : b.isDate = true → bringsOrder b = false)
    (absentLast : Bool) :
    (∀ r, compareOptional a b absentLast = .ok r →
      ∀ t, (compareUniversal a b absentLast).exec t = (.ok r, t)) ∧
    (PassedOver a b → compareUniversal a b absentLast = compareByMethods a b ∧
      ∃ (fault : Fault ω) (report : Report ω), compareOptional a b absentLast = .error fault ∧
        fault.report? = some report ∧ report.code = .notComparable) ∧
    (¬PassedOver a b →
      compareUniversal a b absentLast = MonadExcept.ofExcept (compareOptional a b absentLast)) := by
  have hrefused : PassedOver a b → compareOptional a b absentLast = .error (.notComparable a b) :=
    fun h => compareOptional_of_passedOver h (h.not_areComparable ha hb)
  refine ⟨fun r hr t => ?_, fun h => ?_, compareUniversal_of_not_passedOver⟩
  · have hnot : ¬PassedOver a b := by
      intro h
      rw [hrefused h] at hr
      cases hr
    rw [compareUniversal_of_not_passedOver hnot, Hashing.exec_ofExcept, hr]
  · exact ⟨compareUniversal_of_passedOver h, _, _, hrefused h, rfl, rfl⟩

/-- Two objects that bring an order, an equality and a hash code each compare by the order, and a
date that brings none of these beside one of them is passed over. -/
theorem compareUniversal_extends_compareOptional_for_objects :
    let catalog : Catalog := #[
      ⟨none, .record, [], none, some (.returns (.number 2.5)), some (.returns (.bool true)),
        some (.returns (.number 7)), none⟩,
      ⟨none, .record, [], none, some (.returns (.number (-1))), some (.returns (.bool true)),
        some (.returns (.number 7)), none⟩,
      .ofNature none (.date 0)]
    let _ : Objects Item := catalog.objects
    let a : Value Item := .object ⟨0⟩
    let b : Value Item := .object ⟨1⟩
    let date : Value Item := .object ⟨2⟩
    (∀ v ∈ [a, b, date], v.isDate = true → bringsOrder v = false) ∧
      compareOptional a b false = .ok (.number 2.5) ∧
      (∀ t, (compareUniversal a b false).exec t = (.ok (.number 2.5), t)) ∧
      PassedOver date b ∧ compareUniversal date b true = compareByMethods date b ∧
      (∃ (fault : Fault Item) (report : Report Item), compareOptional date b true = .error fault ∧
        fault.report? = some report ∧ report.code = .notComparable) ∧
      ¬PassedOver a b ∧
      compareUniversal b a true = MonadExcept.ofExcept (compareOptional b a true) := by
  intro catalog _ a b date
  have hdates : ∀ v ∈ [a, b, date], v.isDate = true → bringsOrder v = false := by
    intro v hv hdate
    simp only [List.mem_cons, List.not_mem_nil, or_false] at hv
    rcases hv with rfl | rfl | rfl
    · cases hdate
    · cases hdate
    · rfl
  have ha := hdates a (by simp)
  have hb := hdates b (by simp)
  have hdate := hdates date (by simp)
  have hresult : compareOptional a b false = .ok (.number 2.5) := rfl
  have hpassed : PassedOver date b := ⟨by decide, ⟨rfl, rfl⟩, rfl⟩
  have hnot : ¬PassedOver a b := fun h => Bool.false_ne_true h.noCommonOrder.symm
  have hnot' : ¬PassedOver b a := fun h => Bool.false_ne_true h.noCommonOrder.symm
  obtain ⟨hgives, -, -⟩ := compareUniversal_extends_compareOptional ha hb false
  obtain ⟨-, hmethods, -⟩ := compareUniversal_extends_compareOptional hdate hb true
  obtain ⟨-, -, hother⟩ := compareUniversal_extends_compareOptional hb ha true
  obtain ⟨hrest, hrefused⟩ := hmethods hpassed
  exact ⟨hdates, hresult, hgives _ hresult, hpassed, hrest, hrefused, hnot, hother hnot'⟩

end Arrange
