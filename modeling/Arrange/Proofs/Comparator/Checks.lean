import Arrange.Catalog
import Arrange.Comparator.Contract
import Arrange.Comparator.Pinyin
import Arrange.Proofs.Comparator.Lawful
import Arrange.Proofs.Order.Identity

/-!
# What the contract checks decide

A check decides a property of the samples when it comes to an end and finds a violation exactly
where the property fails (`Decides`). Each of the three checks decides a law of the outcomes that it
reads off the numbers, where NaN is a tie or not above zero. So none of them alone excludes NaN, but
the first and the last one together do (`not_isNaN_of_checked`), and `checkContract` decides the
contract over all doubles: `checkContract_decides_contract`.
-/

set_option autoImplicit false

namespace Arrange

open Std

/-! ## Outcomes -/

namespace Number

/-- The outcome that a number stands for in a check: NaN counts as a tie. -/
def outcome (x : Float) : Ordering := (relate x 0).getD .eq

theorem hasSign_outcome {x : Float} (h : x.isNaN = false) : HasSign x (outcome x) := by
  have hrelate : relate x 0 = some (placeOrder (place x) (place 0)) := by
    rw [relate_eq, h]
    rfl
  rw [HasSign, outcome, hrelate]
  rfl

theorem relate_zero_eq_gt_iff {x : Float} : relate x 0 = some .gt ↔ 0 < x := by
  rw [relate_eq, lt_iff, ← OrientedCmp.gt_iff_lt]
  cases x.isNaN <;> simp

/-- Where a number stands relative to zero is known unless it is NaN. -/
theorem not_zero_lt_iff {x : Float} (h : x.isNaN = false) : ¬ 0 < x ↔ x ≤ 0 := by
  have hsign : HasSign x (outcome x) := hasSign_outcome h
  rw [← relate_zero_eq_gt_iff, hsign.le_zero_iff, show relate x 0 = some (outcome x) from hsign]
  cases outcome x <;> decide

theorem not_le_of_isNaN {x : Float} (h : x.isNaN = true) : ¬ x ≤ 0 := by
  rw [le_iff, h]
  simp

/-- The two zeros are the numbers that are ties. -/
theorem HasSign.eq_zero_iff {x : Float} {o : Ordering} (h : HasSign x o) :
    x = 0 ∨ x = -0 ↔ o = .eq := by
  rw [← h.beq_zero_iff, Number.beq_zero_iff]

/-- The signs of the numbers with an outcome. -/
def signs : Ordering → List Float
  | .lt => [-1]
  | .eq => [0, -0]
  | .gt => [1]

theorem HasSign.sign_mem {x : Float} {o : Ordering} (h : HasSign x o) : sign x ∈ signs o := by
  have hzero : x = 0 ∨ x = -0 ↔ o = .eq := h.eq_zero_iff
  unfold HasSign relate at h
  by_cases hlt : x < 0
  · rw [if_pos hlt] at h
    cases h
    simp [sign, signs, hlt]
  · rw [if_neg hlt] at h
    by_cases hgt : 0 < x
    · rw [if_pos hgt] at h
      cases h
      simp [sign, signs, hlt, hgt]
    · rw [if_neg hgt] at h
      obtain ⟨-, ho⟩ := Option.ite_none_left_eq_some.mp h
      cases ho
      simpa [sign, signs, hlt, hgt] using hzero

/-- The signs of two numbers are opposite exactly when their outcomes are. -/
theorem HasSign.sign_beq_neg_iff {x y : Float} {o p : Ordering} (hx : HasSign x o)
    (hy : HasSign y p) : (sign x == -sign y) = true ↔ o = p.swap := by
  have hsigns : ∀ s ∈ signs o, ∀ t ∈ signs p, (s == -t) = true ↔ o = p.swap := by
    cases o <;> cases p <;> decide
  exact hsigns (sign x) hx.sign_mem (sign y) hy.sign_mem

end Number

/-! ## Deciding -/

section Deciding

variable {m : Type → Type} [Monad m]

/-- A check comes to an end, and it finds no violation exactly when `P` holds. -/
def Decides (check : m (Option Violation)) (P : Prop) : Prop :=
  ∃ found, check = pure found ∧ (found = none ↔ P)

theorem Decides.congr {check : m (Option Violation)} {P Q : Prop} (h : Decides check P)
    (hiff : P ↔ Q) : Decides check Q := by
  obtain ⟨found, hcheck, hfound⟩ := h
  exact ⟨found, hcheck, hfound.trans hiff⟩

theorem Decides.accepts {check : m (Option Violation)} {P : Prop} (h : Decides check P)
    (hP : P) : check = pure none := by
  obtain ⟨found, hcheck, hfound⟩ := h
  rw [hcheck, hfound.mpr hP]

theorem Decides.refuses {check : m (Option Violation)} {P : Prop} (h : Decides check P)
    (hP : ¬P) : ∃ violation, check = pure (some violation) := by
  obtain ⟨found, hcheck, hfound⟩ := h
  obtain ⟨violation, rfl⟩ := Option.ne_none_iff_exists'.mp fun hnone => hP (hfound.mp hnone)
  exact ⟨violation, hcheck⟩

theorem decides_ite (P : Prop) [Decidable P] (violation : Violation) :
    Decides (pure (if P then none else some violation) : m (Option Violation)) P := by
  refine ⟨_, rfl, ?_⟩
  by_cases h : P <;> simp [h]

variable [LawfulMonad m]

/-- One check after another, which is made only if the first one finds nothing. -/
theorem Decides.andThen {check next : m (Option Violation)} {P Q : Prop} (h : Decides check P)
    (hnext : Decides next Q) :
    Decides (do match ← check with
      | some violation => return some violation
      | none => next) (P ∧ Q) := by
  obtain ⟨found, rfl, hfound⟩ := h
  rw [pure_bind]
  cases found with
  | some violation =>
      refine ⟨some violation, rfl, ?_⟩
      have hP : ¬P := fun hP => Option.some_ne_none violation (hfound.mpr hP)
      simp [hP]
  | none =>
      have hP : P := hfound.mp rfl
      exact hnext.congr (and_iff_right hP).symm

/-- A check that is left out where a condition holds. -/
theorem Decides.unless {guard : m Bool} {b : Bool} {next : m (Option Violation)} {Q : Prop}
    (hguard : guard = pure b) (hnext : Decides next Q) :
    Decides (do
      if ← guard then return none
      next) (¬b = true → Q) := by
  rw [hguard, pure_bind]
  cases b with
  | true => exact ⟨none, rfl, by simp⟩
  | false => exact hnext.congr (by simp)

/-- A walk over samples decides what the check decides of each of them. -/
theorem firstViolation_decides {α : Type} {check : Nat → α → m (Option Violation)} {P : α → Prop}
    {samples : List α} (h : ∀ i, ∀ a ∈ samples, Decides (check i a) (P a)) (i : Nat) :
    Decides (firstViolation check i samples) (∀ a ∈ samples, P a) := by
  induction samples generalizing i with
  | nil => exact ⟨none, rfl, by simp⟩
  | cons a rest ih =>
      have hrest : Decides (firstViolation check (i + 1) rest) (∀ b ∈ rest, P b) :=
        ih (fun j b hb => h j b (List.mem_cons_of_mem a hb)) (i + 1)
      exact ((h i a List.mem_cons_self).andThen hrest).congr List.forall_mem_cons.symm

end Deciding

/-! ## The three checks -/

section Checks

variable {ω : Type} {m : Type → Type} [Monad m] [LawfulMonad m] [MonadExceptOf (Fault ω) m]
  [Objects ω] {c : Comparator m ω} {samples : List (Value ω)} {f : Value ω → Value ω → Float}

/-- On the samples the comparator gives the numbers of `f`, and does nothing else. -/
def Comparator.Gives (c : Comparator m ω) (f : Value ω → Value ω → Float)
    (samples : List (Value ω)) : Prop :=
  ∀ a ∈ samples, ∀ b ∈ samples, c a b = pure (.number (f a b))

theorem signOfComparison_eq {a b : Value ω} {x : Float} (h : c a b = pure (.number x)) :
    signOfComparison c a b = pure (Number.outcome x) := by
  unfold signOfComparison
  rw [h, pure_bind]
  rfl

theorem isAbove_eq {a b : Value ω} {x : Float} (h : c a b = pure (.number x)) :
    isAbove c a b = pure (Number.relate x 0 == some .gt) := by
  unfold isAbove
  rw [h, pure_bind]
  show (pure (Number.relate x 0) >>= fun standing => pure (standing == some .gt) : m Bool) = _
  rw [pure_bind]

/-- NaN counts as a tie here. -/
theorem checkReflexive_decides (hc : c.Gives f samples) :
    Decides (checkReflexive c samples) (∀ a ∈ samples, Number.outcome (f a a) = .eq) := by
  apply firstViolation_decides
  intro i a ha
  rw [signOfComparison_eq (hc a ha a ha), pure_bind]
  exact decides_ite _ _

/-- NaN counts as a tie here, both ways round. -/
theorem checkAntisymmetric_decides (hc : c.Gives f samples) :
    Decides (checkAntisymmetric c samples)
      (∀ a ∈ samples, ∀ b ∈ samples, Number.outcome (f a b) = (Number.outcome (f b a)).swap) := by
  apply firstViolation_decides
  intro i a ha
  apply firstViolation_decides
  intro j b hb
  rw [signOfComparison_eq (hc a ha b hb), pure_bind, signOfComparison_eq (hc b hb a ha), pure_bind]
  exact decides_ite _ _

/-- NaN is not above zero in the first two comparisons, and not at most zero in the last one. -/
theorem checkTransitive_decides (hc : c.Gives f samples) :
    Decides (checkTransitive c samples)
      (∀ a ∈ samples, ∀ b ∈ samples, ∀ d ∈ samples, ¬ 0 < f a b → ¬ 0 < f b d → f a d ≤ 0) := by
  apply firstViolation_decides
  intro i a ha
  apply firstViolation_decides
  intro j b hb
  -- the third samples are not walked over where the first comparison is above zero
  have hthird : (¬ 0 < f a b → ∀ d ∈ samples, ¬ 0 < f b d → f a d ≤ 0) ↔
      ∀ d ∈ samples, ¬ 0 < f a b → ¬ 0 < f b d → f a d ≤ 0 :=
    ⟨fun h d hd hab => h hab d hd, fun h hab d hd => h d hd hab⟩
  refine Decides.congr ?_ hthird
  rw [← Number.relate_zero_eq_gt_iff, ← beq_iff_eq]
  apply Decides.unless (isAbove_eq (hc a ha b hb))
  apply firstViolation_decides
  intro k d hd
  rw [← Number.relate_zero_eq_gt_iff, ← beq_iff_eq]
  apply Decides.unless (isAbove_eq (hc b hb d hd))
  rw [hc a ha d hd, pure_bind]
  show Decides (pure (decide (f a d ≤ 0)) >>= fun holds =>
    pure (if holds = true then none else some (.triple i j k))) (f a d ≤ 0)
  rw [pure_bind]
  simpa only [decide_eq_true_eq] using decides_ite (m := m) (f a d ≤ 0) (.triple i j k)

end Checks

/-! ## The contract -/

section Contract

variable {ω : Type} {samples : List (Value ω)} {f : Value ω → Value ω → Float}

/-- The numbers of `f` keep the contract of a comparator on the samples. None is NaN, a sample and
itself give a zero, a pair and its reverse give opposite signs, and "at most" is transitive. -/
structure KeepsContract (f : Value ω → Value ω → Float) (samples : List (Value ω)) : Prop where
  notNaN : ∀ a ∈ samples, ∀ b ∈ samples, (f a b).isNaN = false
  self : ∀ a ∈ samples, f a a = 0 ∨ f a a = -0
  swap : ∀ a ∈ samples, ∀ b ∈ samples, Number.sign (f a b) == -Number.sign (f b a)
  trans : ∀ a ∈ samples, ∀ b ∈ samples, ∀ d ∈ samples, f a b ≤ 0 → f b d ≤ 0 → f a d ≤ 0

/-- The laws that the three checks decide exclude NaN together. -/
theorem not_isNaN_of_checked (hself : ∀ a ∈ samples, Number.outcome (f a a) = .eq)
    (htrans : ∀ a ∈ samples, ∀ b ∈ samples, ∀ d ∈ samples, ¬ 0 < f a b → ¬ 0 < f b d → f a d ≤ 0) :
    ∀ a ∈ samples, ∀ b ∈ samples, (f a b).isNaN = false := by
  intro a ha b hb
  by_contra hnan
  rw [Bool.not_eq_false] at hnan
  -- the triple with the second sample twice: nothing in it is above zero
  have hfirst : ¬ 0 < f a b := by
    rw [Number.lt_iff, hnan]
    simp
  have hsecond : ¬ 0 < f b b := by
    intro hpos
    have habove : Number.outcome (f b b) = .gt := by
      rw [Number.outcome, Number.relate_zero_eq_gt_iff.mpr hpos]
      rfl
    rw [hself b hb] at habove
    cases habove
  exact Number.not_le_of_isNaN hnan (htrans a ha b hb b hb hfirst hsecond)

/-- Where no number is NaN the laws of the contract are those that the three checks decide. -/
theorem keepsContract_iff_of_notNaN (hnan : ∀ a ∈ samples, ∀ b ∈ samples, (f a b).isNaN = false) :
    KeepsContract f samples ↔
      (∀ a ∈ samples, Number.outcome (f a a) = .eq) ∧
      (∀ a ∈ samples, ∀ b ∈ samples, Number.outcome (f a b) = (Number.outcome (f b a)).swap) ∧
      ∀ a ∈ samples, ∀ b ∈ samples, ∀ d ∈ samples, ¬ 0 < f a b → ¬ 0 < f b d → f a d ≤ 0 := by
  have hsign : ∀ a ∈ samples, ∀ b ∈ samples, Number.HasSign (f a b) (Number.outcome (f a b)) :=
    fun a ha b hb => Number.hasSign_outcome (hnan a ha b hb)
  have hself : (∀ a ∈ samples, f a a = 0 ∨ f a a = -0) ↔
      ∀ a ∈ samples, Number.outcome (f a a) = .eq :=
    forall₂_congr fun a ha => (hsign a ha a ha).eq_zero_iff
  have hswap : (∀ a ∈ samples, ∀ b ∈ samples, Number.sign (f a b) == -Number.sign (f b a)) ↔
      ∀ a ∈ samples, ∀ b ∈ samples, Number.outcome (f a b) = (Number.outcome (f b a)).swap :=
    forall₄_congr fun a ha b hb => (hsign a ha b hb).sign_beq_neg_iff (hsign b hb a ha)
  have htrans : (∀ a ∈ samples, ∀ b ∈ samples, ∀ d ∈ samples, f a b ≤ 0 → f b d ≤ 0 → f a d ≤ 0) ↔
      ∀ a ∈ samples, ∀ b ∈ samples, ∀ d ∈ samples, ¬ 0 < f a b → ¬ 0 < f b d → f a d ≤ 0 := by
    refine forall₄_congr fun a ha b hb => forall₂_congr fun d hd => ?_
    rw [Number.not_zero_lt_iff (hnan a ha b hb), Number.not_zero_lt_iff (hnan b hb d hd)]
  rw [← hself, ← hswap, ← htrans]
  constructor
  · intro h
    exact ⟨h.self, h.swap, h.trans⟩
  · rintro ⟨hself, hswap, htrans⟩
    exact ⟨hnan, hself, hswap, htrans⟩

/-- Over all doubles they are, since they exclude NaN together. -/
theorem keepsContract_iff_checked : KeepsContract f samples ↔
    (∀ a ∈ samples, Number.outcome (f a a) = .eq) ∧
    (∀ a ∈ samples, ∀ b ∈ samples, Number.outcome (f a b) = (Number.outcome (f b a)).swap) ∧
    ∀ a ∈ samples, ∀ b ∈ samples, ∀ d ∈ samples, ¬ 0 < f a b → ¬ 0 < f b d → f a d ≤ 0 := by
  constructor
  · intro h
    exact (keepsContract_iff_of_notNaN h.notNaN).mp h
  · intro h
    have hnan : ∀ a ∈ samples, ∀ b ∈ samples, (f a b).isNaN = false :=
      not_isNaN_of_checked h.1 h.2.2
    exact (keepsContract_iff_of_notNaN hnan).mpr h

variable {m : Type → Type} [Monad m] {c : Comparator m ω}
variable [LawfulMonad m] [MonadExceptOf (Fault ω) m] [Objects ω]

/-- For a comparator that gives numbers on the samples, NaN and infinities included, and does
nothing else, the check comes to an end and finds no violation exactly when the contract is kept. -/
theorem checkContract_decides_contract (hc : c.Gives f samples) :
    Decides (checkContract c samples) (KeepsContract f samples) := by
  have hchecks := (checkReflexive_decides hc).andThen
    ((checkAntisymmetric_decides hc).andThen (checkTransitive_decides hc))
  exact hchecks.congr keepsContract_iff_checked.symm

end Contract

/-- Subtraction keeps the contract on two numbers; beside a text it gives NaN, which is found. -/
theorem checkContract_decides_contract_of_subtraction :
    let _ : Objects Item := Catalog.objects #[]
    let f : Value Item → Value Item → Float
      | .number x, .number y => x - y
      | _, _ => 0 / 0
    let c : Comparator (Hashing Item) Item := fun a b => pure (.number (f a b))
    let numbers : List (Value Item) := [.number 1, .number 2.5]
    let mixed : List (Value Item) := [.number 1, .text "1"]
    (c.Gives f numbers ∧ KeepsContract f numbers ∧ checkContract c numbers = pure none) ∧
      c.Gives f mixed ∧ ¬KeepsContract f mixed ∧ ∃ v, checkContract c mixed = pure (some v) := by
  intro _ f c numbers mixed
  have hnumbers : c.Gives f numbers := fun _ _ _ _ => rfl
  have hmixed : c.Gives f mixed := fun _ _ _ _ => rfl
  have hkept : KeepsContract f numbers := by
    refine ⟨?_, ?_, ?_, ?_⟩ <;> decide
  have hbroken : ¬KeepsContract f mixed := by
    intro h
    have hnan := h.notNaN (.number 1) (by decide) (.text "1") (by decide)
    exact absurd hnan (by decide)
  obtain ⟨found, hcheck, hfound⟩ := checkContract_decides_contract hnumbers
  obtain ⟨violation, hmixedCheck, hviolation⟩ := checkContract_decides_contract hmixed
  refine ⟨⟨hnumbers, hkept, ?_⟩, hmixed, hbroken, ?_⟩
  · rw [hcheck, hfound.mpr hkept]
  · obtain ⟨v, rfl⟩ := Option.ne_none_iff_exists'.mp fun hnone => hbroken (hviolation.mp hnone)
    exact ⟨v, hmixedCheck⟩

end Arrange
