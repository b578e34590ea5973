import Arrange.Catalog
import Arrange.Order.Selection
import Arrange.Proofs.Order.Ranked

/-!
# Tests for a range

Each test by comparison reads its answer off how two values are ranked (`ReadsOff`). On one class of
values and the absent values this makes a range test what one expects of it, whichever bound comes
first (`RangeLaws`). Among values of any classes a comparison may be refused; then too it does not
matter which bound comes first (`inRange_laws`).
-/

set_option autoImplicit false

namespace Arrange

open Std

variable {ω : Type} [DecidableEq ω] [Objects ω]

/-! ## Tests and choices -/

/-- A test answers by how two values are ranked, and is refused where their comparison is. -/
structure ReadsOff (test : Value ω → Value ω → Except (Fault ω) Bool) (p : Ordering → Bool) :
    Prop where
  ranked : ∀ {a b : Value ω} {o : Ordering}, Ranked a b o → test a b = .ok (p o)
  unranked : ∀ {a b : Value ω}, Unranked a b → test a b = .error (.notComparable a b)

section Tests

variable {a b : Value ω} {o : Ordering}

theorem standing_of_ranked (h : Ranked a b o) : standing a b = .ok (some o) := by
  obtain ⟨x, hx, hsign⟩ := h
  show (compareOptional a b false >>= Value.compareZero) = .ok (some o)
  rw [hx]
  exact congrArg Except.ok hsign

theorem standing_of_unranked (h : Unranked a b) : standing a b = .error (.notComparable a b) := by
  show (compareOptional a b false >>= Value.compareZero) = _
  rw [h]
  rfl

theorem lt_readsOff : ReadsOff (lt : Value ω → Value ω → Except (Fault ω) Bool) (· == .lt) where
  ranked h := by rw [lt, standing_of_ranked h]; rfl
  unranked h := by rw [lt, standing_of_unranked h]; rfl

theorem gt_readsOff : ReadsOff (gt : Value ω → Value ω → Except (Fault ω) Bool) (· == .gt) where
  ranked h := by rw [gt, standing_of_ranked h]; rfl
  unranked h := by rw [gt, standing_of_unranked h]; rfl

theorem le_readsOff : ReadsOff (le : Value ω → Value ω → Except (Fault ω) Bool) (·.isLE) where
  ranked h := by rw [le, standing_of_ranked h]; rfl
  unranked h := by rw [le, standing_of_unranked h]; rfl

theorem ge_readsOff : ReadsOff (ge : Value ω → Value ω → Except (Fault ω) Bool) (·.isGE) where
  ranked h := by rw [ge, standing_of_ranked h]; rfl
  unranked h := by rw [ge, standing_of_unranked h]; rfl

theorem ties_readsOff : ReadsOff (ties : Value ω → Value ω → Except (Fault ω) Bool) (· == .eq) where
  ranked h := by
    obtain ⟨x, hx, hsign⟩ := h
    rw [ties, hx]
    refine congrArg Except.ok ?_
    rw [Bool.eq_iff_iff, beq_iff_eq]
    exact hsign.beq_zero_iff
  unranked h := by rw [ties, h]; rfl

theorem smaller_of_ranked (h : Ranked a b o) : smaller a b = .ok (if o.isLE then a else b) := by
  rw [smaller, le_readsOff.ranked h]
  rfl

theorem larger_of_ranked (h : Ranked a b o) : larger a b = .ok (if o.isGE then a else b) := by
  rw [larger, ge_readsOff.ranked h]
  rfl

theorem smaller_of_unranked (h : Unranked a b) : smaller a b = .error (.notComparable a b) := by
  rw [smaller, le_readsOff.unranked h]
  rfl

end Tests

/-! ## Range tests -/

/-- Whether a value passes one test with the smaller of two bounds and another test with the larger
one. -/
def rangeBy (above below : Value ω → Value ω → Except (Fault ω) Bool) (v a b : Value ω) :
    Except (Fault ω) Bool := do
  if ← above v (← smaller a b) then below v (← larger a b) else return false

theorem rangeBy_of_bounds {above below : Value ω → Value ω → Except (Fault ω) Bool}
    {v a b low high : Value ω} (hlow : smaller a b = .ok low) (hhigh : larger a b = .ok high) :
    rangeBy above below v a b
      = (above v low >>= fun passes => if passes then below v high else pure false) := by
  rw [rangeBy, hlow, hhigh]
  rfl

theorem inRange_eq_rangeBy (v a b : Value ω) : inRange v a b = rangeBy ge le v a b := rfl

theorem inOpenRange_eq_rangeBy (v a b : Value ω) : inOpenRange v a b = rangeBy gt lt v a b := rfl

/-- Whether a test takes a value from one of two bounds to the other one, in either order of the
bounds. The second order is only tried when the first one fails. -/
def liesBetween (test : Value ω → Value ω → Except (Fault ω) Bool) (v a b : Value ω) :
    Except (Fault ω) Bool := do
  if ← (do if ← test a v then test v b else return false) then return true
  else if ← test b v then test v a else return false

/-! ## Values that are all ranked -/

section Ordered

variable {sign : Value ω → Value ω → Ordering} {D : Set (Value ω)} {p : Ordering → Bool}
  {above below : Value ω → Value ω → Except (Fault ω) Bool} {v a b : Value ω}

/-- Whether a value stands between two bounds, in either order of the bounds. -/
def between (p : Ordering → Bool) (sign : Value ω → Value ω → Ordering) (v a b : Value ω) : Bool :=
  p (sign a v) && p (sign v b) || p (sign b v) && p (sign v a)

omit [DecidableEq ω] [Objects ω] in
theorem between_comm : between p sign v b a = between p sign v a b :=
  Bool.or_comm _ _

theorem liesBetween_eq_between (hranked : ∀ a ∈ D, ∀ b ∈ D, Ranked a b (sign a b))
    (hbelow : ReadsOff below p) (hv : v ∈ D) (ha : a ∈ D) (hb : b ∈ D) :
    liesBetween below v a b = .ok (between p sign v a b) := by
  unfold liesBetween between
  rw [hbelow.ranked (hranked a ha v hv), hbelow.ranked (hranked v hv b hb),
    hbelow.ranked (hranked b hb v hv), hbelow.ranked (hranked v hv a ha)]
  cases p (sign a v) <;> cases p (sign v b) <;> cases p (sign b v) <;> cases p (sign v a) <;> rfl

variable (horder : IsOrderOn sign D) (hranked : ∀ a ∈ D, ∀ b ∈ D, Ranked a b (sign a b))
  (hv : v ∈ D) (ha : a ∈ D) (hb : b ∈ D)

include horder hv ha hb

omit [DecidableEq ω] [Objects ω] in
/-- Where the first bound is less, no value stands between the bounds the other way round. -/
theorem between_of_lt (hp : p .gt = false) (hab : sign a b = .lt) :
    between p sign v a b = (p (sign a v) && p (sign v b)) := by
  have hle {o : Ordering} (ho : p o = true) : o.isLE := by
    cases o with
    | gt => rw [hp] at ho; cases ho
    | _ => rfl
  have hnot : (p (sign b v) && p (sign v a)) = false := by
    by_contra hboth
    obtain ⟨hbv, hva⟩ := (Bool.and_eq_true _ _).mp (Bool.eq_true_of_not_eq_false hboth)
    have hba : (sign b a).isLE := horder.trans b hb v hv a ha (hle hbv) (hle hva)
    rw [horder.swap a ha b hb, hab] at hba
    cases hba
  rw [between, hnot, Bool.or_false]

omit [DecidableEq ω] [Objects ω] in
/-- Where the bounds tie, one of them will do. -/
theorem between_of_eq (hab : sign a b = .eq) :
    between p sign v a b = (p (sign a v) && p (sign v a)) := by
  have hright : sign v a = sign v b := horder.congr_right ha hb hv hab
  have hleft : sign a v = sign b v := by
    rw [horder.swap v hv a ha, horder.swap v hv b hb, hright]
  rw [between, ← hright, ← hleft, Bool.or_self]

include hranked

/-- A range test says whether a value stands between the bounds. -/
theorem rangeBy_eq_between (habove : ReadsOff above (p ·.swap)) (hbelow : ReadsOff below p)
    (hp : p .gt = false) : rangeBy above below v a b = .ok (between p sign v a b) := by
  have hbounds {low high : Value ω} (hl : low ∈ D) (hh : high ∈ D) (hlow : smaller a b = .ok low)
      (hhigh : larger a b = .ok high) :
      rangeBy above below v a b = .ok (p (sign low v) && p (sign v high)) := by
    rw [rangeBy_of_bounds hlow hhigh, habove.ranked (hranked v hv low hl),
      hbelow.ranked (hranked v hv high hh), horder.swap low hl v hv, Ordering.swap_swap]
    cases p (sign low v) <;> rfl
  have hsmaller := smaller_of_ranked (hranked a ha b hb)
  have hlarger := larger_of_ranked (hranked a ha b hb)
  cases hab : sign a b with
  | lt =>
      rw [hab] at hsmaller hlarger
      rw [hbounds ha hb hsmaller hlarger, between_of_lt horder hv ha hb hp hab]
  | eq =>
      rw [hab] at hsmaller hlarger
      rw [hbounds ha ha hsmaller hlarger, between_of_eq horder hv ha hb hab]
  | gt =>
      have hba : sign b a = .lt := by rw [horder.swap a ha b hb, hab]; rfl
      rw [hab] at hsmaller hlarger
      rw [hbounds hb ha hsmaller hlarger, between_comm.symm,
        between_of_lt horder hv hb ha hp hba]

end Ordered

/-- What the range tests do with a value and two bounds. -/
structure RangeLaws (v a b : Value ω) : Prop where
  /-- A value is in a range when it lies between the bounds or on one of them. -/
  within : ∃ r, inRange v a b = .ok r ∧ liesBetween le v a b = .ok r
  /-- It is in an open range when it lies strictly between them. -/
  strictlyWithin : ∃ r, inOpenRange v a b = .ok r ∧ liesBetween lt v a b = .ok r
  /-- The bounds may come in either order. -/
  exchange : inRange v b a = inRange v a b ∧ inOpenRange v b a = inOpenRange v a b
  /-- What is in a range only if it is not open ties with a bound. -/
  boundary : inRange v a b = .ok true ∧ inOpenRange v a b = .ok false ↔
    ties v a = .ok true ∨ ties v b = .ok true

/-- The laws hold where all values are ranked by an order. -/
theorem rangeLaws_of_ranked {sign : Value ω → Value ω → Ordering} {D : Set (Value ω)}
    (horder : IsOrderOn sign D) (hranked : ∀ a ∈ D, ∀ b ∈ D, Ranked a b (sign a b))
    {v a b : Value ω} (hv : v ∈ D) (ha : a ∈ D) (hb : b ∈ D) : RangeLaws v a b := by
  have hge : ReadsOff (ge : Value ω → Value ω → Except (Fault ω) Bool) (·.swap.isLE) := by
    simpa using ge_readsOff
  have hgt : ReadsOff (gt : Value ω → Value ω → Except (Fault ω) Bool) (·.swap == .lt) := by
    have hswap : (fun o : Ordering => o.swap == .lt) = (· == .gt) := by
      funext o
      cases o <;> rfl
    rw [hswap]
    exact gt_readsOff
  have hclosed {x y : Value ω} (hx : x ∈ D) (hy : y ∈ D) :
      inRange v x y = .ok (between (·.isLE) sign v x y) := by
    rw [inRange_eq_rangeBy]
    exact rangeBy_eq_between horder hranked hv hx hy hge le_readsOff rfl
  have hopen {x y : Value ω} (hx : x ∈ D) (hy : y ∈ D) :
      inOpenRange v x y = .ok (between (· == .lt) sign v x y) := by
    rw [inOpenRange_eq_rangeBy]
    exact rangeBy_eq_between horder hranked hv hx hy hgt lt_readsOff rfl
  refine ⟨⟨_, hclosed ha hb, ?_⟩, ⟨_, hopen ha hb, ?_⟩, ⟨?_, ?_⟩, ?_⟩
  · exact liesBetween_eq_between hranked le_readsOff hv ha hb
  · exact liesBetween_eq_between hranked lt_readsOff hv ha hb
  · rw [hclosed hb ha, hclosed ha hb, between_comm]
  · rw [hopen hb ha, hopen ha hb, between_comm]
  · rw [hclosed ha hb, hopen ha hb, ties_readsOff.ranked (hranked v hv a ha),
      ties_readsOff.ranked (hranked v hv b hb), between, between, horder.swap v hv a ha,
      horder.swap v hv b hb]
    cases sign v a <;> cases sign v b <;> simp

/-! ## Values of any classes -/

/-- A call fails under the code for values that cannot be compared. -/
def Refused {α : Type} (call : Except (Fault ω) α) : Prop :=
  ∃ (fault : Fault ω) (report : Report ω), call = .error fault ∧ fault.report? = some report ∧
    report.code = .notComparable

/-- Two calls answer the same, or both are refused. -/
def Agree {α : Type} (call other : Except (Fault ω) α) : Prop :=
  (∃ r, call = .ok r ∧ other = .ok r) ∨ (Refused call ∧ Refused other)

omit [DecidableEq ω] in
theorem refused_notComparable {α : Type} (a b : Value ω) :
    Refused (.error (.notComparable a b) : Except (Fault ω) α) := ⟨_, _, rfl, rfl, rfl⟩

section Mixed

variable {above below : Value ω → Value ω → Except (Fault ω) Bool} {p q : Ordering → Bool}
  {v a b : Value ω} (habove : ReadsOff above p) (hbelow : ReadsOff below q)

include habove hbelow

/-- A value is tested alike against bounds that it compares alike with. -/
theorem agree_of_comparesAlike {low low' high high' : Value ω} (hlow : ComparesAlike v low low')
    (hhigh : ComparesAlike v high high') :
    Agree (above v low >>= fun passes => if passes then below v high else pure false)
      (above v low' >>= fun passes => if passes then below v high' else pure false) := by
  rcases hlow with ⟨o, hl, hl'⟩ | ⟨hl, hl'⟩
  · rw [habove.ranked hl, habove.ranked hl']
    cases hpasses : p o with
    | false => exact .inl ⟨false, rfl, rfl⟩
    | true =>
        show Agree (below v high) (below v high')
        rcases hhigh with ⟨o', hh, hh'⟩ | ⟨hh, hh'⟩
        · exact .inl ⟨q o', hbelow.ranked hh, hbelow.ranked hh'⟩
        · rw [hbelow.unranked hh, hbelow.unranked hh']
          exact .inr ⟨refused_notComparable v high, refused_notComparable v high'⟩
  · rw [habove.unranked hl, habove.unranked hl']
    exact .inr ⟨refused_notComparable v low, refused_notComparable v low'⟩

/-- The bounds of a range test may come in either order, also where a comparison is refused. -/
theorem rangeBy_exchange {own : Value ω → Value ω → Ordering} {S : Set (Value ω)}
    (h : LawfullyOrdered own S) (hdates : ∀ v ∈ S, v.isDate = true → bringsOrder v = false)
    (hv : v ∈ S) (ha : a ∈ S) (hb : b ∈ S) :
    Agree (rangeBy above below v a b) (rangeBy above below v b a) := by
  rcases ranked_or_unranked h hdates ha hb with ⟨o, hab, hba⟩ | ⟨hab, hba⟩
  · have hself {w : Value ω} (hw : w ∈ S) : ComparesAlike v w w :=
      comparesAlike_self h hdates hw hv
    rw [rangeBy_of_bounds (smaller_of_ranked hab) (larger_of_ranked hab),
      rangeBy_of_bounds (smaller_of_ranked hba) (larger_of_ranked hba)]
    cases o with
    | lt => exact agree_of_comparesAlike habove hbelow (hself ha) (hself hb)
    | eq =>
        -- each order of the bounds takes the bound that comes first for both
        have htie : ComparesAlike v a b := hab.comparesAlike h hdates ha hb hv
        exact agree_of_comparesAlike habove hbelow htie htie
    | gt => exact agree_of_comparesAlike habove hbelow (hself hb) (hself ha)
  · refine .inr ⟨?_, ?_⟩
    · rw [rangeBy, smaller_of_unranked hab]
      exact refused_notComparable a b
    · rw [rangeBy, smaller_of_unranked hba]
      exact refused_notComparable b a

end Mixed

/-- **A range test does not depend on which bound comes first.** On the values of one class and the
absent values it says whether a value lies between the bounds, in either order of the bounds; among
values of any classes the exchange of the bounds changes neither the answer nor whether the test is
refused. -/
theorem inRange_laws {own : Value ω → Value ω → Ordering} {S : Set (Value ω)}
    (h : LawfullyOrdered own S) :
    (∀ c : OrderClass, ∀ v ∈ c.optional S, ∀ a ∈ c.optional S, ∀ b ∈ c.optional S,
      RangeLaws v a b) ∧
    ((∀ v ∈ S, v.isDate = true → bringsOrder v = false) → ∀ v ∈ S, ∀ a ∈ S, ∀ b ∈ S,
      Agree (inRange v a b) (inRange v b a) ∧ Agree (inOpenRange v a b) (inOpenRange v b a)) := by
  constructor
  · intro c v hv a ha b hb
    exact rangeLaws_of_ranked (c.isOrderOn_optional h)
      (fun _ hx _ hy => OrderClass.ranked_of_optional h hx hy) hv ha hb
  · intro hdates v hv a ha b hb
    simp only [inRange_eq_rangeBy, inOpenRange_eq_rangeBy]
    exact ⟨rangeBy_exchange ge_readsOff le_readsOff h hdates hv ha hb,
      rangeBy_exchange gt_readsOff lt_readsOff h hdates hv ha hb⟩

/-- Two versions with absent values, and beside them a number and a record that has no order. -/
theorem inRange_laws_for_versions_and_others :
    let catalog : Catalog := #[.ofNature none (.version (.number 1) (.number 0)),
      .ofNature none (.version (.number 2) (.number 0)), .ofNature none .record]
    let _ : Objects Item := catalog.objects
    let rank : Value Item → Nat := fun v => if v = .object ⟨0⟩ then 0 else 1
    let own : Value Item → Value Item → Ordering := fun a b => compare (rank a) (rank b)
    let S : Set (Value Item) :=
      {.null, .undefined, .object ⟨0⟩, .object ⟨1⟩, .object ⟨2⟩, .number 5}
    LawfullyOrdered own S ∧ (∀ v ∈ S, v.isDate = true → bringsOrder v = false) ∧
      RangeLaws (.object ⟨0⟩ : Value Item) (.object ⟨1⟩) .null ∧
      Agree (inRange (.number 5 : Value Item) .null (.object ⟨2⟩))
        (inRange (.number 5) (.object ⟨2⟩) .null) := by
  intro catalog _ rank own S
  have hcompare : TransCmp (compare : Nat → Nat → Ordering) := inferInstance
  have hlawful : LawfullyOrdered own S := by
    refine ⟨?_, (IsOrderOn.of_transCmp hcompare Set.univ).comap rank fun _ _ => trivial⟩
    have hversion : ∀ v ∈ S, orderClass? v = some .own → v = .object ⟨0⟩ ∨ v = .object ⟨1⟩ := by
      rintro v (rfl | rfl | rfl | rfl | rfl | rfl) hclass
      case inr.inr.inl => exact .inl rfl
      case inr.inr.inr.inl => exact .inr rfl
      all_goals exact absurd hclass (by decide)
    intro a ha b hb hca hcb compareTo hown
    rcases hversion a ha hca with rfl | rfl <;> rcases hversion b hb hcb with rfl | rfl <;>
      cases hown <;> exact ⟨_, rfl, by unfold Number.HasSign; decide⟩
  have hdates : ∀ v ∈ S, v.isDate = true → bringsOrder v = false := by
    rintro v (rfl | rfl | rfl | rfl | rfl | rfl) hdate
    all_goals cases hdate
  obtain ⟨hlaws, hexchange⟩ := inRange_laws hlawful
  refine ⟨hlawful, hdates, ?_, ?_⟩
  · exact hlaws .own _ ⟨by simp [S], .inr rfl⟩ _ ⟨by simp [S], .inr rfl⟩ _ ⟨by simp [S], .inl rfl⟩
  · exact (hexchange hdates _ (by simp [S]) _ (by simp [S]) _ (by simp [S])).1

end Arrange
