import Arrange.Proofs.Comparator.Checks
import Arrange.Proofs.Order.Optional
import Arrange.Proofs.Sorting.Values

/-!
# What the check of sorting decides

`checkSortsAs` compares an expected list with what sorting gives, and sorting puts `undefined`
values behind all others whatever the comparator says of them. So the check decides whether the
expected list is the stable sort of the defined samples with the `undefined` ones behind it. That is
the stable sort of all samples where `undefined` ranks after the others, and is not elsewhere
(`isStableSort_append_undefined_iff`).
-/

set_option autoImplicit false

namespace Arrange

open Std

variable {ω : Type}

/-! ## Lists that look alike -/

section Alike

variable [DecidableEq ω] {test : ω → ω → Bool}

/-- A primitive looks like itself only. -/
theorem looksLike_of_isPrimitive {a : Value ω} (b : Value ω) (h : a.isPrimitive = true) :
    a.looksLike test b = decide (a = b) := by
  cases a with
  | array => cases h
  | object => cases h
  | _ => rw [Value.looksLike] <;> simp

/-- A list of primitives looks like itself only. -/
theorem elementsLookAlike_iff {xs : List (Value ω)} (h : ∀ v ∈ xs, v.isPrimitive = true)
    (ys : List (Value ω)) : Value.elementsLookAlike test xs ys = true ↔ xs = ys := by
  induction xs generalizing ys with
  | nil => cases ys <;> simp [Value.elementsLookAlike]
  | cons x xs ih =>
      obtain ⟨hx, hxs⟩ := List.forall_mem_cons.mp h
      cases ys with
      | nil => simp [Value.elementsLookAlike]
      | cons y ys =>
          rw [Value.elementsLookAlike, looksLike_of_isPrimitive y hx, Bool.and_eq_true, ih hxs,
            decide_eq_true_iff, List.cons.injEq]

end Alike

/-! ## Undefined values -/

/-- A defined sample ranks before each `undefined` one, or ties with one that stands behind it. -/
def UndefinedLast (sign : Value ω → Value ω → Ordering) (samples : List (Value ω)) : Prop :=
  samples.Pairwise fun a b =>
    (a.isUndefined = false → b.isUndefined = true → (sign a b).isLE) ∧
    (a.isUndefined = true → b.isUndefined = false → sign b a = .lt)

section Undefined

variable {sign sign' : Value ω → Value ω → Ordering} {samples sorted : List (Value ω)}

theorem eq_undefined_of_mem {v : Value ω} (h : v ∈ samples.filter Value.isUndefined) :
    v = .undefined := by
  obtain ⟨-, hundef⟩ := List.mem_filter.mp h
  cases v with
  | undefined => rfl
  | _ => cases hundef

/-- Only how the samples compare matters. -/
theorem UndefinedLast.congr (h : UndefinedLast sign samples)
    (hsign : ∀ a ∈ samples, ∀ b ∈ samples, sign a b = sign' a b) : UndefinedLast sign' samples := by
  refine h.imp_of_mem fun {a b} ha hb hab => ?_
  rwa [← hsign a ha b hb, ← hsign b hb a ha]

theorem UndefinedLast.isLE (h : UndefinedLast sign samples) :
    ∀ v ∈ samples, ∀ u ∈ samples, v.isUndefined = false → u.isUndefined = true →
      (sign v u).isLE := by
  apply List.Pairwise.forall_of_forall_of_flip
  · intro v _ hdef hundef
    rw [hdef] at hundef
    cases hundef
  · exact h.imp fun hab => hab.1
  · refine h.imp fun {a b} hab hdef hundef => ?_
    rw [hab.2 hundef hdef]
    rfl

/-- Behind defined values no defined value stands behind an `undefined` one. -/
theorem pairwise_append_undefined (h : ∀ v ∈ sorted, v.isUndefined = false) :
    (sorted ++ samples.filter Value.isUndefined).Pairwise
      fun a b => a.isUndefined = true → b.isUndefined = true := by
  refine List.pairwise_append.mpr ⟨?_, ?_, fun a _ b hb _ => (List.mem_filter.mp hb).2⟩
  · refine List.pairwise_of_forall_mem_list fun a ha b _ hundef => ?_
    rw [h a ha] at hundef
    cases hundef
  · exact List.pairwise_of_forall_mem_list fun _ _ b hb _ => (List.mem_filter.mp hb).2

section Sorted

variable {cmp : Value ω → Value ω → Ordering} [TransCmp cmp]
  (h : IsStableSort cmp sorted (samples.filter fun v => !v.isUndefined))

include h

/-- The `undefined` samples may be put behind the others where they rank last. -/
theorem UndefinedLast.isStableSort_append (hlast : UndefinedLast cmp samples) :
    IsStableSort cmp (sorted ++ samples.filter Value.isUndefined) samples := by
  obtain ⟨hin, hrearranges⟩ := isStableSort_iff_rearranges.mp h
  refine isStableSort_iff_rearranges.mpr ⟨?_, ?_⟩
  · refine List.pairwise_append.mpr ⟨hin, ?_, fun v hv u hu => ?_⟩
    · refine List.pairwise_of_forall_mem_list fun u hu w hw => ?_
      rw [eq_undefined_of_mem hu, eq_undefined_of_mem hw]
      exact ReflCmp.isLE_rfl
    · obtain ⟨hu, hundef⟩ := List.mem_filter.mp hu
      obtain ⟨hv, hdef⟩ := List.mem_filter.mp (h.perm.mem_iff.mp hv)
      exact hlast.isLE v hv u hu (by simpa using hdef) hundef
  · have hleads : Sorting.Rearranges cmp (samples.filter (fun v => !v.isUndefined)
        ++ samples.filter fun v => !!v.isUndefined) samples := by
      apply Sorting.rearranges_filter_append
      exact hlast.imp fun hab hundef hdef => hab.2 (by simpa using hundef) (by simpa using hdef)
    simp only [Bool.not_not] at hleads
    exact (hrearranges.append (Sorting.Rearranges.refl _)).trans hleads

/-- Where this sorts the samples the `undefined` ones rank last. -/
theorem undefinedLast_of_isStableSort_append
    (hall : IsStableSort cmp (sorted ++ samples.filter Value.isUndefined) samples) :
    UndefinedLast cmp samples := by
  obtain ⟨hin, hrearranges⟩ := isStableSort_iff_rearranges.mp hall
  have hle : ∀ v ∈ samples, v.isUndefined = false → ∀ u ∈ samples, u.isUndefined = true →
      (cmp v u).isLE := by
    intro v hv hdef u hu hundef
    have hmem : v ∈ sorted := h.perm.mem_iff.mpr (List.mem_filter.mpr ⟨hv, by simp [hdef]⟩)
    exact (List.pairwise_append.mp hin).2.2 v hmem u (List.mem_filter.mpr ⟨hu, hundef⟩)
  refine List.pairwise_of_forall_sublist fun {a b} hab => ?_
  have ha : a ∈ samples := hab.subset (by simp)
  have hb : b ∈ samples := hab.subset (by simp)
  refine ⟨fun hdef hundef => hle a ha hdef b hb hundef, fun hundef hdef => ?_⟩
  have hne : cmp b a ≠ .eq := by
    intro htie
    -- tied values keep their order, so that `a` stands in front of `b` still
    have hkept : [a, b].Sublist (tied cmp b samples) := by
      simpa [tied, htie, ReflCmp.compare_self] using hab.filter fun x => cmp b x == .eq
    rw [← hrearranges b] at hkept
    have hdefined : ∀ v ∈ sorted, v.isUndefined = false := fun v hv => by
      simpa using List.of_mem_filter (h.perm.mem_iff.mp hv)
    have hpair := List.Pairwise.sublist (hkept.trans List.filter_sublist)
      (pairwise_append_undefined hdefined)
    simp [hundef, hdef] at hpair
  exact (Ordering.isLE_iff_eq_lt_or_eq_eq.mp (hle b hb hdef a ha hundef)).resolve_right hne

end Sorted

/-- The `undefined` values behind the stable sort of the others are the stable sort of all exactly
where they rank last. -/
theorem isStableSort_append_undefined_iff (horder : IsOrderOn sign {v | v ∈ samples})
    (h : IsStableSort sign sorted (samples.filter fun v => !v.isUndefined)) :
    IsStableSort sign (sorted ++ samples.filter Value.isUndefined) samples ↔
      UndefinedLast sign samples := by
  obtain ⟨cmp, _, hcmp⟩ := horder.exists_transCmp
  have hsign : ∀ a ∈ samples, ∀ b ∈ samples, sign a b = cmp a b :=
    fun a ha b hb => (hcmp a ha b hb).symm
  have h' : IsStableSort cmp sorted (samples.filter fun v => !v.isUndefined) :=
    h.congr fun a ha b hb => hsign a (List.mem_of_mem_filter ha) b (List.mem_of_mem_filter hb)
  constructor
  · intro hall
    exact (undefinedLast_of_isStableSort_append h' (hall.congr hsign)).congr hcmp
  · intro hlast
    exact ((hlast.congr hsign).isStableSort_append h').congr hcmp

end Undefined

/-! ## The check -/

section Check

variable {m : Type → Type} [Monad m] [LawfulMonad m] [MonadExceptOf (Fault ω) m] [DecidableEq ω]
  [Objects ω] {c : Comparator m ω} {sign : Value ω → Value ω → Ordering}
  {samples : List (Value ω)}

theorem checkSortsAs_of_sortValues {sorted : List (Value ω)}
    (h : sortValues c samples = pure sorted) (expected : List (Value ω)) :
    checkSortsAs (.function c) samples expected
      = pure (if Value.elementsLookAlike Objects.alike sorted expected then none
          else some .sorting) := by
  show (sortValues c samples >>= fun sorted => pure (if Value.elementsLookAlike Objects.alike
    sorted expected then none else some Violation.sorting)) = _
  rw [h, pure_bind]

/-- The check accepts one list only, the `undefined` values of which stand at the end. -/
theorem exists_checkSortsAs_decides (hprimitive : ∀ v ∈ samples, v.isPrimitive = true)
    (horder : IsOrderOn sign (definedIn samples)) (hc : c.AnswersBy sign (definedIn samples)) :
    ∃ sorted, IsStableSort sign sorted (samples.filter fun v => !v.isUndefined) ∧
      ∀ expected, Decides (checkSortsAs (.function c) samples expected)
        (expected = sorted ++ samples.filter Value.isUndefined) := by
  obtain ⟨sorted, hsorted, hsort⟩ := exists_sortValues_eq horder hc
  refine ⟨sorted, hsorted, fun expected => ?_⟩
  have hall : ∀ v ∈ sorted ++ samples.filter Value.isUndefined, v.isPrimitive = true := by
    intro v hv
    rcases List.mem_append.mp hv with hv | hv
    · exact hprimitive v (List.mem_of_mem_filter (hsorted.perm.mem_iff.mp hv))
    · exact hprimitive v (List.mem_of_mem_filter hv)
  rw [checkSortsAs_of_sortValues hsort]
  apply (decides_ite _ .sorting).congr
  rw [elementsLookAlike_iff hall]
  exact eq_comm

/-- **The check of sorting decides whether a list is the stable sort of the samples where
`undefined` ranks last.** It accepts one list, the stable sort of the defined samples with the
`undefined` ones behind it; elsewhere that list is not the stable sort of the samples. -/
theorem checkSortsAs_decides_where_undefined_ranks_last
    (hprimitive : ∀ v ∈ samples, v.isPrimitive = true)
    (horder : IsOrderOn sign {v | v ∈ samples}) (hc : c.AnswersBy sign {v | v ∈ samples}) :
    ∃ sorted, IsStableSort sign sorted (samples.filter fun v => !v.isUndefined) ∧
      (∀ expected, Decides (checkSortsAs (.function c) samples expected)
        (expected = sorted ++ samples.filter Value.isUndefined)) ∧
      (UndefinedLast sign samples → ∀ expected,
        Decides (checkSortsAs (.function c) samples expected)
          (IsStableSort sign expected samples)) ∧
      (¬UndefinedLast sign samples →
        ¬IsStableSort sign (sorted ++ samples.filter Value.isUndefined) samples) := by
  have hdefined : definedIn samples ⊆ {v | v ∈ samples} := fun v hv => hv.1
  obtain ⟨sorted, hsorted, hdecides⟩ := exists_checkSortsAs_decides hprimitive
    (horder.mono hdefined) (hc.mono hdefined)
  have hiff := isStableSort_append_undefined_iff horder hsorted
  refine ⟨sorted, hsorted, hdecides, fun hlast expected => ?_, fun hnot hall => hnot (hiff.mp hall)⟩
  refine (hdecides expected).congr ⟨?_, fun h => h.unique horder (hiff.mpr hlast)⟩
  rintro rfl
  exact hiff.mpr hlast

end Check

/-! ## Nullable numbers -/

section Nullable

variable [Objects ω]

/-- With absent values ranked the natural order answers by the order of a kind and these values. -/
theorem withAbsent_natural_answersBy {m : Type → Type} [Monad m] [MonadExceptOf (Fault ω) m]
    (kind : OrderedKind) (last : Bool) :
    (Comparator.withAbsent last (.natural : Comparator m ω)).AnswersBy (kind.optionalSign last)
      kind.optional := by
  apply Comparator.AnswersBy.withAbsent
  rintro a ⟨ha, hpa⟩ b ⟨hb, hpb⟩
  exact Comparator.natural_answersBy kind a (OrderedKind.mem_members ha hpa) b
    (OrderedKind.mem_members hb hpb)

end Nullable

/-- Numbers and an `undefined` value that ranks last. -/
theorem checkSortsAs_decides_for_numbers_and_undefined :
    let _ : Objects Item := Catalog.objects #[]
    let c : Comparator (Except (Fault Item)) Item := .absentLast .natural
    let sign : Value Item → Value Item → Ordering := OrderedKind.number.optionalSign true
    let samples : List (Value Item) := [.undefined, .number 2, .number 1]
    (∀ v ∈ samples, v.isPrimitive = true) ∧ IsOrderOn sign {v | v ∈ samples} ∧
      c.AnswersBy sign {v | v ∈ samples} ∧ UndefinedLast sign samples ∧
      ∀ expected, Decides (checkSortsAs (.function c) samples expected)
        (IsStableSort sign expected samples) := by
  intro _ c sign samples
  have hprimitive : ∀ v ∈ samples, v.isPrimitive = true := by simp [samples, Value.isPrimitive]
  have hoptional : {v | v ∈ samples} ⊆ (OrderedKind.number.optional : Set (Value Item)) := by
    intro v hv
    simp only [samples, Set.mem_ofPred_eq, List.mem_cons, List.not_mem_nil, or_false] at hv
    rcases hv with rfl | rfl | rfl
    · exact .inl rfl
    · exact .inr rfl
    · exact .inr rfl
  have horder : IsOrderOn sign {v | v ∈ samples} :=
    (OrderedKind.number.isOrderOn_optional true).mono hoptional
  have hanswers : c.AnswersBy sign {v | v ∈ samples} :=
    (withAbsent_natural_answersBy .number true).mono hoptional
  have hlast : UndefinedLast sign samples := by
    have hless (x : Float) : sign (.number x) .undefined = .lt := rfl
    simp [UndefinedLast, samples, Value.isUndefined, hless]
  obtain ⟨sorted, -, -, hdecides, -⟩ :=
    checkSortsAs_decides_where_undefined_ranks_last hprimitive horder hanswers
  exact ⟨hprimitive, horder, hanswers, hlast, hdecides hlast⟩

/-- Where `undefined` ranks first the check refuses the stable sort, and accepts a list that is
none. -/
theorem checkSortsAs_refuses_stable_sort :
    let _ : Objects Item := Catalog.objects #[]
    let c : Comparator (Except (Fault Item)) Item := .absentFirst .natural
    let sign : Value Item → Value Item → Ordering := OrderedKind.number.optionalSign false
    let samples : List (Value Item) := [.undefined, .number 1]
    IsOrderOn sign {v | v ∈ samples} ∧ c.AnswersBy sign {v | v ∈ samples} ∧
      IsStableSort sign samples samples ∧
      checkSortsAs (.function c) samples samples = .ok (some .sorting) ∧
      ¬IsStableSort sign [.number 1, .undefined] samples ∧
      checkSortsAs (.function c) samples [.number 1, .undefined] = .ok none := by
  intro _ c sign samples
  have hoptional : {v | v ∈ samples} ⊆ (OrderedKind.number.optional : Set (Value Item)) := by
    intro v hv
    simp only [samples, Set.mem_ofPred_eq, List.mem_cons, List.not_mem_nil, or_false] at hv
    rcases hv with rfl | rfl
    · exact .inl rfl
    · exact .inr rfl
  have horder : IsOrderOn sign {v | v ∈ samples} :=
    (OrderedKind.number.isOrderOn_optional false).mono hoptional
  have hanswers : c.AnswersBy sign {v | v ∈ samples} :=
    (withAbsent_natural_answersBy .number false).mono hoptional
  have hdefined : definedIn samples ⊆ {v | v ∈ samples} := fun v hv => hv.1
  obtain ⟨sorted, hsorted, hsort⟩ :=
    exists_sortValues_eq (horder.mono hdefined) (hanswers.mono hdefined)
  have hone : sorted = [.number 1] := List.perm_singleton.mp hsorted.perm
  rw [hone] at hsort
  have hcheck := checkSortsAs_of_sortValues hsort
  have hless : sign .undefined (.number 1) = .lt := rfl
  refine ⟨horder, hanswers, ⟨.refl _, ?_, fun _ _ => rfl⟩, ?_, ?_, ?_⟩
  · exact .cons_cons (by rw [hless]; rfl) (.singleton _)
  · rw [hcheck]
    rfl
  · intro h
    have hle := (List.isChain_cons_cons.mp h.inOrder).1
    rw [horder.swap .undefined (by simp [samples]) (.number 1) (by simp [samples]), hless] at hle
    cases hle
  · rw [hcheck]
    rfl

end Arrange
