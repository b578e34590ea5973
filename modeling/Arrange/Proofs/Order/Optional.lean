import Arrange.Proofs.Order.Identity
import Arrange.Value.Spelling

/-!
# The order of values that may be absent

With the absent values each kind of values is ordered as a total preorder by `compareOptional`. Two
values tie when both are absent, when they are the same primitive, or when they are dates of one
time. What is said beyond that of single numbers, dates and texts is said of the orders of contents
first: `numberOrder_eq_lt_iff` and `textOrder_eq_lt_iff`. Main statement:
`compareOptional_orders_each_kind`.
-/

set_option autoImplicit false

namespace Arrange

open Std

/-! ## Which content is less -/

namespace Number

/-- Doubles of which neither is less are at one place, unless one is NaN. -/
theorem placeOrder_eq_of_not_lt {x y : Float} (hx : x.isNaN = false) (hy : y.isNaN = false)
    (hxy : ¬ x < y) (hyx : ¬ y < x) : placeOrder (place x) (place y) = .eq := by
  have hswap : placeOrder (place y) (place x) = (placeOrder (place x) (place y)).swap :=
    OrientedCmp.eq_swap
  cases hplace : placeOrder (place x) (place y) with
  | eq => rfl
  | lt => exact absurd ((lt_iff x y).mpr ⟨hx, hy, hplace⟩) hxy
  | gt =>
      rw [hplace] at hswap
      exact absurd ((lt_iff y x).mpr ⟨hy, hx, hswap⟩) hyx

/-- A double ranks before another one when it is less, when they are -0 and 0, and when only the
other one is NaN. -/
theorem numberOrder_eq_lt_iff (x y : Float) : numberOrder x y = .lt ↔
    x < y ∨ (x = -0 ∧ y = 0) ∨ (x.isNaN = false ∧ y.isNaN = true) := by
  by_cases hxy : x < y
  · exact iff_of_true (by rw [numberOrder, if_pos hxy]) (.inl hxy)
  by_cases hyx : y < x
  · refine iff_of_false (by rw [numberOrder, if_neg hxy, if_pos hyx]; decide) ?_
    obtain ⟨hy, -, -⟩ := (lt_iff y x).mp hyx
    rintro (hlt | ⟨rfl, rfl⟩ | ⟨-, hnan⟩)
    · exact hxy hlt
    · exact absurd hyx (by decide)
    · exact Bool.false_ne_true (hy.symm.trans hnan)
  rw [numberOrder, if_neg hxy, if_neg hyx]
  cases hx : x.isNaN with
  | true =>
      refine iff_of_false (by cases y.isNaN <;> simp) ?_
      rintro (hlt | ⟨rfl, -⟩ | ⟨hnot, -⟩)
      · exact hxy hlt
      · exact absurd hx (by decide)
      · cases hnot
  | false =>
      cases hy : y.isNaN with
      | true => exact iff_of_true rfl (.inr (.inr ⟨rfl, rfl⟩))
      | false =>
          -- equal numbers, of which only the zeros are told apart
          have hplace : placeOrder (place x) (place y) = .eq :=
            placeOrder_eq_of_not_lt hx hy hxy hyx
          obtain rfl | ⟨rfl, rfl⟩ | ⟨rfl, rfl⟩ := eq_or_zeros_of_placeOrder hplace
          · refine iff_of_false (by cases isNegativeZero x <;> decide) ?_
            rintro (hlt | ⟨rfl, hzero⟩ | ⟨-, hnan⟩)
            · exact hxy hlt
            · exact absurd hzero (by decide)
            · cases hnan
          · decide
          · decide

/-- No double stands between -0 and 0. -/
theorem not_between_zeros {x : Float} (hlow : numberOrder (-0) x = .lt) :
    numberOrder x 0 ≠ .lt := by
  intro hhigh
  rcases (numberOrder_eq_lt_iff x 0).mp hhigh with hneg | ⟨rfl, -⟩ | ⟨-, hnan⟩
  · obtain ⟨hx, -, hneg⟩ := (lt_iff x 0).mp hneg
    rcases (numberOrder_eq_lt_iff (-0) x).mp hlow with hpos | ⟨-, rfl⟩ | ⟨-, hnan⟩
    · obtain ⟨-, -, hpos⟩ := (lt_iff (-0) x).mp hpos
      have hzeros : placeOrder (place (-0)) (place 0) = .lt := TransCmp.lt_trans hpos hneg
      exact absurd hzeros (by decide)
    · exact absurd hneg (by decide)
    · exact Bool.false_ne_true (hx.symm.trans hnan)
  · exact absurd hlow (by decide)
  · exact absurd hnan (by decide)

end Number

/-- The order of texts is that of the library. -/
theorem textOrder_eq_lt_iff_lt (s t : Text) : textOrder s t = .lt ↔ s < t := by
  induction s generalizing t with
  | nil => cases t <;> simp [textOrder, Text.compare]
  | cons u us ih =>
      cases t with
      | nil => simp [textOrder, Text.compare]
      | cons v vs =>
          rw [List.cons_lt_cons_iff, ← ih vs]
          show (if u < v then _ else if v < u then _ else textOrder us vs) = Ordering.lt ↔ _
          by_cases huv : u < v
          · rw [if_pos huv]
            exact iff_of_true rfl (.inl huv)
          · by_cases hvu : v < u
            · have hne : u ≠ v := fun heq => huv (heq ▸ hvu)
              rw [if_neg huv, if_pos hvu]
              exact iff_of_false (by decide) (by simp [huv, hne])
            · have heq : u = v := UInt16.le_antisymm (UInt16.not_lt.mp hvu) (UInt16.not_lt.mp huv)
              rw [if_neg huv, if_neg hvu]
              simp [heq]

/-- A text ranks before another one when it is a proper prefix of it, and when it has the lesser
unit where they first differ. -/
theorem textOrder_eq_lt_iff (s t : Text) : textOrder s t = .lt ↔
    (s <+: t ∧ s ≠ t) ∨ ∃ (i : Nat) (hs : i < s.length) (ht : i < t.length),
      (∀ (j : Nat) (hj : j < i), s[j] = t[j]) ∧ s[i] < t[i] := by
  have hbegins : (s = t.take s.length ∧ s.length < t.length) ↔ (s <+: t ∧ s ≠ t) := by
    constructor
    · rintro ⟨htake, hlength⟩
      refine ⟨List.prefix_iff_eq_take.mpr htake, ?_⟩
      rintro rfl
      exact Nat.lt_irrefl _ hlength
    · rintro ⟨hbegin, hne⟩
      have hlength : s.length ≠ t.length := fun heq => hne (hbegin.eq_of_length heq)
      exact ⟨List.prefix_iff_eq_take.mp hbegin, Nat.lt_of_le_of_ne hbegin.length_le hlength⟩
  rw [textOrder_eq_lt_iff_lt, List.lt_iff_exists, hbegins]

/-! ## Values of a kind and absent values -/

theorem Value.isPrimitive_of_isAbsent {ω : Type} {v : Value ω} (h : v.isAbsent = true) :
    v.isPrimitive = true := by
  cases v <;> first | rfl | cases h

theorem Value.ofOrdering_inj {ω : Type} {o o' : Ordering} :
    (ofOrdering o : Value ω) = ofOrdering o' ↔ o = o' := by
  constructor
  · cases o <;> cases o' <;> simp [ofOrdering] <;> decide
  · intro h
    rw [h]

namespace OrderedKind

variable {ω : Type} [Objects ω]

/-- The values of a kind and the absent values. -/
def optional (kind : OrderedKind) : Set (Value ω) := {v | v.isAbsent = true ∨ v ∈ kind.members}

/-- How two of them compare. -/
def optionalSign (kind : OrderedKind) (absentLast : Bool) (a b : Value ω) : Ordering :=
  (absentOrder? a b absentLast).getD (kind.sign a b)

theorem mem_members {kind : OrderedKind} {v : Value ω} (h : v ∈ kind.optional)
    (hpresent : v.isAbsent = false) : v ∈ kind.members := by
  rcases h with habsent | hmember
  · exact absurd (hpresent.symm.trans habsent) Bool.false_ne_true
  · exact hmember

theorem isOrderOn_optional (kind : OrderedKind) (absentLast : Bool) :
    IsOrderOn (kind.optionalSign absentLast) (kind.optional : Set (Value ω)) := by
  apply IsOrderOn.withAbsent
  apply kind.isOrderOn_members.mono
  rintro v ⟨hv, hpresent⟩
  exact mem_members hv hpresent

end OrderedKind

section

variable {ω : Type} [DecidableEq ω] [Objects ω] {kind : OrderedKind} {a b : Value ω}

theorem compareOptional_of_optional (absentLast : Bool) (ha : a ∈ kind.optional)
    (hb : b ∈ kind.optional) :
    compareOptional a b absentLast = .ok (.ofOrdering (kind.optionalSign absentLast a b)) := by
  rw [compareOptional]
  by_cases hab : a = b
  · rw [if_pos hab, hab, (kind.isOrderOn_optional absentLast).self b hb]
  · rw [if_neg hab, OrderedKind.optionalSign]
    cases habsent : absentOrder? a b absentLast with
    | some o => rfl
    | none =>
        have hpresent := absentOrder?_eq_none_iff.mp habsent
        exact compareNatural_of_members (OrderedKind.mem_members ha hpresent.1)
          (OrderedKind.mem_members hb hpresent.2)

theorem compareOptional_eq_iff (absentLast : Bool) (ha : a ∈ kind.optional)
    (hb : b ∈ kind.optional) (o : Ordering) :
    compareOptional a b absentLast = .ok (.ofOrdering o) ↔
      kind.optionalSign absentLast a b = o := by
  rw [compareOptional_of_optional absentLast ha hb, Except.ok.injEq, Value.ofOrdering_inj]

end

/-! ## Ties -/

section

variable {ω : Type} [Objects ω]

/-- Whether two values are the same primitive, or dates of one time. -/
def SameContent (a b : Value ω) : Prop :=
  (a.isPrimitive = true ∧ a = b) ∨ ∃ time, a.time? = some time ∧ b.time? = some time

theorem time?_of_isPrimitive {v : Value ω} (h : v.isPrimitive = true) : v.time? = none := by
  cases v with
  | object => cases h
  | _ => rfl

theorem isAbsent_of_view {kind : OrderedKind} {v : Value ω} {x : kind.Content}
    (h : kind.view? v = some x) : v.isAbsent = false := by
  cases v with
  | undefined => cases kind <;> cases h
  | null => cases kind <;> cases h
  | _ => rfl

theorem content_eq_iff {kind : OrderedKind} {a b : Value ω} {x y : kind.Content}
    (ha : kind.view? a = some x) (hb : kind.view? b = some y) : x = y ↔ SameContent a b := by
  cases kind with
  | date =>
      have htime : a.time? = some x := ha
      have htime' : b.time? = some y := hb
      constructor
      · rintro rfl
        exact .inr ⟨x, htime, htime'⟩
      · rintro (⟨hprimitive, -⟩ | ⟨time, hx, hy⟩)
        · rw [time?_of_isPrimitive hprimitive] at htime
          cases htime
        · rw [htime] at hx
          rw [htime'] at hy
          exact Option.some.inj (hx.trans hy.symm)
  | _ =>
      cases a <;> cases ha
      cases b <;> cases hb
      constructor
      · rintro rfl
        exact .inl ⟨rfl, rfl⟩
      · rintro (⟨-, hsame⟩ | ⟨time, htime, -⟩)
        · cases hsame
          rfl
        · cases htime

theorem optionalSign_eq_eq_iff {kind : OrderedKind} {a b : Value ω} (absentLast : Bool)
    (ha : a ∈ kind.optional) (hb : b ∈ kind.optional) :
    kind.optionalSign absentLast a b = .eq ↔
      (a.isAbsent = true ∧ b.isAbsent = true) ∨ SameContent a b := by
  -- an absent value has no content in common with a present one
  have hnot {v w : Value ω} (hv : v.isAbsent = true) (hw : w.isAbsent = false) :
      ¬ SameContent v w ∧ ¬ SameContent w v := by
    have hne : v ≠ w := by
      rintro rfl
      exact Bool.false_ne_true (hw.symm.trans hv)
    have htime := time?_of_isPrimitive (Value.isPrimitive_of_isAbsent hv)
    simp [SameContent, htime, hne, hne.symm]
  rw [OrderedKind.optionalSign, absentOrder?]
  cases hna : a.isAbsent with
  | true =>
      cases hnb : b.isAbsent with
      | true => simp
      | false => cases absentLast <;> simp [(hnot hna hnb).1]
  | false =>
      cases hnb : b.isAbsent with
      | true => cases absentLast <;> simp [(hnot hnb hna).2]
      | false =>
          obtain ⟨x, hx⟩ := Option.isSome_iff_exists.mp (OrderedKind.mem_members ha hna)
          obtain ⟨y, hy⟩ := Option.isSome_iff_exists.mp (OrderedKind.mem_members hb hnb)
          rw [Option.getD_none, OrderedKind.sign_of_view hx hy, LawfulEqCmp.compare_eq_iff_eq,
            content_eq_iff hx hy]
          simp

end

/-! ## The order of each kind -/

section

variable (ω : Type) [DecidableEq ω] [Objects ω]

/-- How the values of a kind and the absent values compare. -/
structure OrdersOptional (kind : OrderedKind) (absentLast : Bool) : Prop where
  /-- The result is -1, 0 or 1, and the other way round it is the opposite one. -/
  answers : ∀ a ∈ (kind.optional : Set (Value ω)), ∀ b ∈ (kind.optional : Set (Value ω)),
    ∃ o, compareOptional a b absentLast = .ok (.ofOrdering o) ∧
      compareOptional b a absentLast = .ok (.ofOrdering o.swap)
  /-- What is at most something is at most all that this is at most. -/
  trans : ∀ a ∈ (kind.optional : Set (Value ω)), ∀ b ∈ (kind.optional : Set (Value ω)),
    ∀ c ∈ (kind.optional : Set (Value ω)), ∀ o o' : Ordering,
      compareOptional a b absentLast = .ok (.ofOrdering o) → o.isLE →
      compareOptional b c absentLast = .ok (.ofOrdering o') → o'.isLE →
      ∃ o'', compareOptional a c absentLast = .ok (.ofOrdering o'') ∧ o''.isLE
  /-- Two values tie when both are absent, or have the same content. -/
  tie_iff : ∀ a ∈ (kind.optional : Set (Value ω)), ∀ b ∈ (kind.optional : Set (Value ω)),
    (compareOptional a b absentLast = .ok (.ofOrdering .eq) ↔
      (a.isAbsent = true ∧ b.isAbsent = true) ∨ SameContent a b)
  /-- The absent values rank before all present ones, or after all of them. -/
  absent : ∀ a ∈ (kind.optional : Set (Value ω)), ∀ b ∈ (kind.optional : Set (Value ω)),
    a.isAbsent = true → b.isAbsent = false →
      compareOptional a b absentLast = .ok (.ofOrdering (if absentLast then .gt else .lt))

/-- How the contents of present values decide. -/
structure RanksContents (absentLast : Bool) : Prop where
  /-- Numbers are ordered numerically, with -0 before 0, and NaN after all others. -/
  numbers : ∀ x y : Float,
    compareOptional (.number x : Value ω) (.number y) absentLast = .ok (.ofOrdering .lt) ↔
      x < y ∨ (x = -0 ∧ y = 0) ∨ (x.isNaN = false ∧ y.isNaN = true)
  /-- Nothing ranks between -0 and 0. -/
  between : ∀ v ∈ (OrderedKind.number.optional : Set (Value ω)),
    compareOptional (.number (-0)) v absentLast = .ok (.ofOrdering .lt) →
      compareOptional v (.number 0) absentLast ≠ .ok (.ofOrdering .lt)
  /-- Dates are ordered as their times are, invalid dates after all others. -/
  dates : ∀ (a b : Value ω) (s t : Float), a.time? = some s → b.time? = some t →
    (compareOptional a b absentLast = .ok (.ofOrdering .lt) ↔
      s < t ∨ (s = -0 ∧ t = 0) ∨ (s.isNaN = false ∧ t.isNaN = true))
  /-- Texts are ordered lexicographically by code unit, a proper prefix first. -/
  texts : ∀ s t : Text,
    compareOptional (.text s : Value ω) (.text t) absentLast = .ok (.ofOrdering .lt) ↔
      (s <+: t ∧ s ≠ t) ∨ ∃ (i : Nat) (hs : i < s.length) (ht : i < t.length),
        (∀ (j : Nat) (hj : j < i), s[j] = t[j]) ∧ s[i] < t[i]

end

section

variable {ω : Type} [DecidableEq ω] [Objects ω]

theorem ordersOptional (kind : OrderedKind) (absentLast : Bool) :
    OrdersOptional ω kind absentLast := by
  have horder := kind.isOrderOn_optional (ω := ω) absentLast
  constructor
  · intro a ha b hb
    refine ⟨_, compareOptional_of_optional absentLast ha hb, ?_⟩
    rw [compareOptional_of_optional absentLast hb ha, horder.swap a ha b hb]
  · intro a ha b hb c hc o o' hab hle hbc hle'
    rw [compareOptional_eq_iff absentLast ha hb] at hab
    rw [compareOptional_eq_iff absentLast hb hc] at hbc
    rw [← hab] at hle
    rw [← hbc] at hle'
    exact ⟨_, compareOptional_of_optional absentLast ha hc,
      horder.trans a ha b hb c hc hle hle'⟩
  · intro a ha b hb
    rw [compareOptional_eq_iff absentLast ha hb, optionalSign_eq_eq_iff absentLast ha hb]
  · intro a ha b hb hna hnb
    rw [compareOptional_of_optional absentLast ha hb, OrderedKind.optionalSign, absentOrder?, hna,
      hnb]
    rfl

/-- Present values of one kind compare by their contents. -/
theorem compareOptional_eq_iff_of_view (kind : OrderedKind) (absentLast : Bool) {a b : Value ω}
    {x y : kind.Content} (ha : kind.view? a = some x) (hb : kind.view? b = some y) (o : Ordering) :
    compareOptional a b absentLast = .ok (.ofOrdering o) ↔ kind.order x y = o := by
  have hmember {v : Value ω} {z : kind.Content} (h : kind.view? v = some z) : v ∈ kind.optional :=
    .inr (Option.isSome_iff_exists.mpr ⟨z, h⟩)
  rw [compareOptional_eq_iff absentLast (hmember ha) (hmember hb), OrderedKind.optionalSign,
    absentOrder?, isAbsent_of_view ha, isAbsent_of_view hb, Option.getD_none,
    OrderedKind.sign_of_view ha hb]

theorem ranksContents (absentLast : Bool) : RanksContents ω absentLast := by
  have hnumbers (x y : Float) :
      compareOptional (.number x : Value ω) (.number y) absentLast = .ok (.ofOrdering .lt) ↔
        numberOrder x y = .lt :=
    compareOptional_eq_iff_of_view .number absentLast rfl rfl .lt
  constructor
  · intro x y
    rw [hnumbers, Number.numberOrder_eq_lt_iff]
  · intro v hv hlow
    cases hna : v.isAbsent with
    | true =>
        have hzero (x : Float) : (.number x : Value ω) ∈ OrderedKind.number.optional := .inr rfl
        -- an absent value is on one side of both zeros
        rw [compareOptional_eq_iff absentLast (hzero (-0)) hv, OrderedKind.optionalSign,
          absentOrder?, hna] at hlow
        rw [Ne, compareOptional_eq_iff absentLast hv (hzero 0), OrderedKind.optionalSign,
          absentOrder?, hna]
        cases absentLast with
        | true => exact fun hhigh => Ordering.noConfusion hhigh
        | false => exact Ordering.noConfusion hlow
    | false =>
        obtain ⟨x, hx⟩ := Option.isSome_iff_exists.mp (OrderedKind.mem_members hv hna)
        cases v with
        | number y =>
            rw [hnumbers] at hlow
            rw [Ne, hnumbers]
            exact Number.not_between_zeros hlow
        | _ => cases hx
  · intro a b s t ha hb
    rw [compareOptional_eq_iff_of_view .date absentLast ha hb]
    exact Number.numberOrder_eq_lt_iff s t
  · intro s t
    rw [compareOptional_eq_iff_of_view .text absentLast rfl rfl]
    exact textOrder_eq_lt_iff s t

/-- **With the absent values each kind of values is ordered as a total preorder**, in which present
values tie when they have the same content, and rank as their contents do. -/
theorem compareOptional_orders_each_kind (absentLast : Bool) :
    (∀ kind, OrdersOptional ω kind absentLast) ∧ RanksContents ω absentLast :=
  ⟨fun kind => ordersOptional kind absentLast, ranksContents absentLast⟩

end

end Arrange
