import Arrange.Proofs.Comparator.Leaves
import Arrange.Proofs.Sorting.Sort

/-!
# Sorting values

A comparator that answers by an order sorts the values stably by that order, the `undefined` ones
behind them (`exists_sortValues_eq`). To sort by several comparators in turn is to sort by each of
them, the last one first (`sortValues_inTurn_eq_foldrM`).
-/

set_option autoImplicit false

namespace Arrange

open Std

variable {ω : Type}

/-- The values that a comparator is asked about when a list is sorted. -/
def definedIn (values : List (Value ω)) : Set (Value ω) := {v ∈ values | v.isUndefined = false}

theorem definedIn_eq (values : List (Value ω)) :
    definedIn values = {v | v ∈ values.filter fun v => !v.isUndefined} := by
  ext v
  simp [definedIn]

variable {m : Type → Type} [Monad m] [LawfulMonad m]

section Sorted

variable [MonadExceptOf (Fault ω) m] [Objects ω]

/-- Where a comparator gives a number its sign says which value goes before. -/
theorem goesBefore_eq {c : Comparator m ω} {a b : Value ω} {x : Float} {o : Ordering}
    (hc : c a b = pure (.number x)) (hsign : Number.HasSign x o) :
    goesBefore c a b = pure (o == .lt) := by
  show (c a b >>= fun v => MonadExcept.ofExcept v.toNumber >>= fun y => pure (decide (y < 0)))
    = pure (o == .lt)
  rw [hc, pure_bind]
  show (pure x >>= fun y => pure (decide (y < 0))) = pure (o == .lt)
  rw [pure_bind]
  refine congrArg pure ?_
  rw [Bool.eq_iff_iff, decide_eq_true_iff, beq_iff_eq]
  exact hsign.lt_zero_iff

/-- Sorting puts the `undefined` values behind the stable sort of the others. -/
theorem exists_sortValues_eq {c : Comparator m ω} {sign : Value ω → Value ω → Ordering}
    {values : List (Value ω)} (horder : IsOrderOn sign (definedIn values))
    (hc : c.AnswersBy sign (definedIn values)) :
    ∃ sorted, IsStableSort sign sorted (values.filter fun v => !v.isUndefined) ∧
      sortValues c values = pure (sorted ++ values.filter Value.isUndefined) := by
  obtain ⟨cmp, _, hcmp⟩ := horder.exists_transCmp
  have hmem : ∀ v ∈ values.filter (fun v => !v.isUndefined), v ∈ definedIn values := by
    simp [definedIn]
  have hbefore : Sorting.GoesBy (goesBefore c) cmp (definedIn values) := by
    intro a ha b hb
    obtain ⟨x, hx, hsign⟩ := hc a ha b hb
    rw [hcmp a ha b hb]
    exact goesBefore_eq hx hsign
  obtain ⟨sorted, hsort, hsorted⟩ := Sorting.exists_sort_eq hbefore hmem
  refine ⟨sorted, hsorted.congr fun a ha b hb => hcmp a (hmem a ha) b (hmem b hb), ?_⟩
  rw [sortValues, hsort, pure_bind]

end Sorted

/-! ## Several comparators -/

/-- A comparator that is asked before others has its ties broken by them. -/
theorem inTurn_answersBy {first second : Comparator m ω} {rest : List (Comparator m ω)}
    {sign sign' : Value ω → Value ω → Ordering} {D : Set (Value ω)}
    (hfirst : first.AnswersBy sign D)
    (hrest : (Comparator.inTurn second rest).AnswersBy sign' D) :
    (Comparator.inTurn first (second :: rest)).AnswersBy
      (fun a b => (sign a b).then (sign' a b)) D := by
  intro a ha b hb
  obtain ⟨x, hx, hsign⟩ := hfirst a ha b hb
  show ∃ z : Float, (first a b >>= fun result => if result.isZero
    then Comparator.inTurn second rest a b else pure result) = pure (.number z) ∧ _
  rw [hx, pure_bind]
  have hzero : (Value.number x : Value ω).isZero = true ↔ sign a b = .eq := hsign.beq_zero_iff
  by_cases htie : sign a b = .eq
  · rw [if_pos (hzero.mpr htie)]
    show ∃ z : Float, _ ∧ Number.HasSign z ((sign a b).then (sign' a b))
    rw [htie]
    exact hrest a ha b hb
  · rw [if_neg fun h => htie (hzero.mp h)]
    refine ⟨x, rfl, ?_⟩
    have hthen : (sign a b).then (sign' a b) = sign a b := by
      cases ho : sign a b with
      | eq => exact absurd ho htie
      | lt => rfl
      | gt => rfl
    show Number.HasSign x ((sign a b).then (sign' a b))
    rw [hthen]
    exact hsign

variable [MonadExceptOf (Fault ω) m] [Objects ω]

/-- To sort by comparators one after the other, the last one first, is to sort by the order of all
of them in turn. -/
theorem exists_foldrM_sortValues_eq {first : Comparator m ω} {rest : List (Comparator m ω)}
    {values : List (Value ω)} (h : ∀ c ∈ first :: rest, c.LawfulOn (definedIn values)) :
    ∃ sign sorted, IsOrderOn sign (definedIn values) ∧
      (Comparator.inTurn first rest).AnswersBy sign (definedIn values) ∧
      IsStableSort sign sorted (values.filter fun v => !v.isUndefined) ∧
      (first :: rest).foldrM sortValues values
        = pure (sorted ++ values.filter Value.isUndefined) := by
  induction rest generalizing first with
  | nil =>
      obtain ⟨sign, horder, hfirst⟩ := h first List.mem_cons_self
      obtain ⟨sorted, hsorted, hsort⟩ := exists_sortValues_eq horder hfirst
      have honly : Comparator.inTurn first [] = first := by
        funext a b
        exact bind_pure (first a b)
      refine ⟨sign, sorted, horder, by rwa [honly], hsorted, ?_⟩
      rw [List.foldrM_cons, List.foldrM_nil, pure_bind, hsort]
  | cons second rest ih =>
      obtain ⟨sign, horder, hfirst⟩ := h first List.mem_cons_self
      obtain ⟨sign', earlier, horder', hrest, hearlier, hfold⟩ :=
        ih fun c hc => h c (List.mem_cons_of_mem first hc)
      -- what has been sorted by the later comparators holds the same values as the list
      have hall : ∀ v ∈ earlier, v.isUndefined = false := by
        intro v hv
        simpa using List.of_mem_filter (hearlier.perm.mem_iff.mp hv)
      have hdefined : (earlier ++ values.filter Value.isUndefined).filter (fun v => !v.isUndefined)
          = earlier := by
        rw [List.filter_append, List.filter_eq_self.mpr (by simpa using hall), List.filter_filter]
        simp
      have hundefined : (earlier ++ values.filter Value.isUndefined).filter Value.isUndefined
          = values.filter Value.isUndefined := by
        rw [List.filter_append, List.filter_eq_nil_iff.mpr (by simpa using hall), List.nil_append,
          List.filter_filter]
        simp
      have hsame : definedIn (earlier ++ values.filter Value.isUndefined) = definedIn values := by
        rw [definedIn_eq, definedIn_eq, hdefined]
        ext v
        exact hearlier.perm.mem_iff
      obtain ⟨sorted, hsorted, hsort⟩ := exists_sortValues_eq
        (hsame ▸ horder) (hsame ▸ hfirst)
      rw [hdefined] at hsorted
      rw [hundefined] at hsort
      refine ⟨fun a b => (sign a b).then (sign' a b), sorted, horder.breakTies horder',
        inTurn_answersBy hfirst hrest, ?_, ?_⟩
      · rw [definedIn_eq] at horder horder'
        exact hearlier.breakTies horder horder' hsorted
      · rw [List.foldrM_cons, hfold, pure_bind, hsort]

/-- **To sort by several comparators in turn is to sort by each of them, the last one first**, where
all are lawful on the values that are not `undefined`. Both give the stable sort of these values by
what the comparators answer in turn, with the `undefined` values behind it. -/
theorem sortValues_inTurn_eq_foldrM {first : Comparator m ω} {rest : List (Comparator m ω)}
    {values : List (Value ω)} (h : ∀ c ∈ first :: rest, c.LawfulOn (definedIn values)) :
    ∃ sign sorted, IsOrderOn sign (definedIn values) ∧
      (Comparator.inTurn first rest).AnswersBy sign (definedIn values) ∧
      IsStableSort sign sorted (values.filter fun v => !v.isUndefined) ∧
      sortValues (Comparator.inTurn first rest) values
        = pure (sorted ++ values.filter Value.isUndefined) ∧
      (first :: rest).foldrM sortValues values
        = pure (sorted ++ values.filter Value.isUndefined) := by
  obtain ⟨sign, sorted, horder, hanswers, hsorted, hfold⟩ := exists_foldrM_sortValues_eq h
  obtain ⟨sorted', hsorted', hsort⟩ := exists_sortValues_eq horder hanswers
  have hsame : sorted' = sorted := by
    rw [definedIn_eq] at horder
    exact hsorted'.unique horder hsorted
  rw [hsame] at hsort
  exact ⟨sign, sorted, horder, hanswers, hsorted, hsort, hfold⟩

/-- Numbers in falling order in front of `null`, by two comparators that leave ties. -/
theorem sortValues_inTurn_eq_foldrM_for_nullable_numbers :
    let _ : Objects Item := Catalog.objects #[]
    let byAbsence : Comparator (Except (Fault Item)) Item :=
      .onKey (fun v => pure (.bool v.isAbsent)) .natural
    let falling : Comparator (Except (Fault Item)) Item := .absentFirst .reversedNatural
    let values : List (Value Item) := [.number 1, .null, .number 2, .undefined, .null, .number 1]
    (∀ c ∈ [byAbsence, falling], c.LawfulOn (definedIn values)) ∧
      ∃ sign sorted, IsOrderOn sign (definedIn values) ∧
        (Comparator.inTurn byAbsence [falling]).AnswersBy sign (definedIn values) ∧
        IsStableSort sign sorted [.number 1, .null, .number 2, .null, .number 1] ∧
        sortValues (.inTurn byAbsence [falling]) values = pure (sorted ++ [.undefined]) ∧
        [byAbsence, falling].foldrM sortValues values = pure (sorted ++ [.undefined]) := by
  intro _ byAbsence falling values
  have habsence : byAbsence.LawfulOn (definedIn values) := by
    have hkey : ∀ v ∈ definedIn values, (pure (.bool v.isAbsent) : Except (Fault Item) (Value Item))
        = pure (.bool v.isAbsent) := fun _ _ => rfl
    apply Comparator.LawfulOn.onKey hkey
    apply (Comparator.natural_lawfulOn .bool).mono
    rintro _ ⟨v, -, rfl⟩
    rfl
  have hfalling : falling.LawfulOn (definedIn values) := by
    apply Comparator.LawfulOn.withAbsent
    apply (Comparator.natural_lawfulOn .number).reverse.mono
    rintro v ⟨⟨hmem, -⟩, hpresent⟩
    simp only [values, List.mem_cons, List.not_mem_nil, or_false] at hmem
    rcases hmem with rfl | rfl | rfl | rfl | rfl | rfl
    all_goals first | rfl | cases hpresent
  have hall : ∀ c ∈ [byAbsence, falling], c.LawfulOn (definedIn values) := by
    simpa using ⟨habsence, hfalling⟩
  exact ⟨hall, sortValues_inTurn_eq_foldrM hall⟩

end Arrange
