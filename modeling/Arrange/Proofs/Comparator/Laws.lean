import Arrange.Comparator.Elementary
import Arrange.Proofs.Comparator.Checks

/-!
# The laws behind the single checks

A comparator of numbers should give zero for a value beside itself (`ReflexiveOn`), opposite results
for a pair and its reverse (`AntisymmetricOn`), and be transitive (`TransitiveOn`). The three checks
test outcomes instead, and an outcome does not tell NaN from zero: each check takes a NaN that it
reads for a tie, except that the last comparison of three is tested itself. So a check decides its
law wherever the results that it reads are not NaN, and otherwise the law with NaN replaced
(`checks_decide_laws_with_nan_as_tie`): the first two accept NaN, and the third one asks for more
than the law does.
-/

set_option autoImplicit false

namespace Arrange

/-! ## NaN as a tie -/

namespace Number

/-- A number with NaN replaced by zero. -/
def tieOfNaN (x : Float) : Float := if x.isNaN then 0 else x

theorem tieOfNaN_of_not_isNaN {x : Float} (h : x.isNaN = false) : tieOfNaN x = x := by
  rw [tieOfNaN, h]
  exact if_neg Bool.false_ne_true

theorem isNaN_tieOfNaN (x : Float) : (tieOfNaN x).isNaN = false := by
  unfold tieOfNaN
  split
  · decide
  next h => exact Bool.eq_false_of_not_eq_true h

/-- A check sees no difference between NaN and zero. -/
theorem outcome_tieOfNaN (x : Float) : outcome (tieOfNaN x) = outcome x := by
  cases h : x.isNaN with
  | false => rw [tieOfNaN_of_not_isNaN h]
  | true =>
      have hrelate : relate x 0 = none := by
        rw [relate_eq, h]
        rfl
      rw [tieOfNaN, h, if_pos rfl, outcome, outcome, hrelate]
      decide

theorem not_zero_lt_iff_tieOfNaN {x : Float} : ¬ 0 < x ↔ tieOfNaN x ≤ 0 := by
  cases h : x.isNaN with
  | false => rw [tieOfNaN_of_not_isNaN h, not_zero_lt_iff h]
  | true =>
      have hnot : ¬ 0 < x := by
        rw [lt_iff, h]
        simp
      rw [tieOfNaN, h, if_pos rfl]
      exact iff_of_true hnot (by decide)

theorem HasSign.zero_lt_iff {x : Float} {o : Ordering} (h : HasSign x o) : 0 < x ↔ o = .gt := by
  rw [← relate_zero_eq_gt_iff, show relate x 0 = some o from h, Option.some_inj]

/-- Two numbers on different sides of zero, or both a zero. -/
def Opposite (x y : Float) : Prop :=
  (x < 0 ∧ 0 < y) ∨ (0 < x ∧ y < 0) ∨ ((x == 0) = true ∧ (y == 0) = true)

instance (x y : Float) : Decidable (Opposite x y) :=
  inferInstanceAs (Decidable (_ ∨ _ ∨ _))

theorem HasSign.opposite_iff {x y : Float} {o p : Ordering} (hx : HasSign x o)
    (hy : HasSign y p) : Opposite x y ↔ o = p.swap := by
  rw [Opposite, hx.lt_zero_iff, hy.lt_zero_iff, hx.zero_lt_iff, hy.zero_lt_iff, hx.beq_zero_iff,
    hy.beq_zero_iff]
  cases o <;> cases p <;> decide

end Number

/-! ## The laws -/

section Laws

variable {ω : Type} {samples : List (Value ω)} {f : Value ω → Value ω → Float}

/-- A sample compared with itself gives a zero. -/
def ReflexiveOn (f : Value ω → Value ω → Float) (samples : List (Value ω)) : Prop :=
  ∀ a ∈ samples, (f a a == 0) = true

/-- A pair and its reverse give results on different sides of zero, or zeros. -/
def AntisymmetricOn (f : Value ω → Value ω → Float) (samples : List (Value ω)) : Prop :=
  ∀ a ∈ samples, ∀ b ∈ samples, Number.Opposite (f a b) (f b a)

/-- A sample that is at most a second one is at most all that this one is at most. -/
def TransitiveOn (f : Value ω → Value ω → Float) (samples : List (Value ω)) : Prop :=
  ∀ a ∈ samples, ∀ b ∈ samples, ∀ d ∈ samples, f a b ≤ 0 → f b d ≤ 0 → f a d ≤ 0

instance : Decidable (ReflexiveOn f samples) :=
  inferInstanceAs (Decidable (∀ a ∈ samples, _))

instance : Decidable (AntisymmetricOn f samples) :=
  inferInstanceAs (Decidable (∀ a ∈ samples, ∀ b ∈ samples, _))

instance : Decidable (TransitiveOn f samples) :=
  inferInstanceAs (Decidable (∀ a ∈ samples, ∀ b ∈ samples, ∀ d ∈ samples, _))

theorem reflexiveOn_iff (hnan : ∀ a ∈ samples, (f a a).isNaN = false) :
    ReflexiveOn f samples ↔ ∀ a ∈ samples, Number.outcome (f a a) = .eq :=
  forall₂_congr fun a ha => (Number.hasSign_outcome (hnan a ha)).beq_zero_iff

theorem antisymmetricOn_iff (hnan : ∀ a ∈ samples, ∀ b ∈ samples, (f a b).isNaN = false) :
    AntisymmetricOn f samples ↔
      ∀ a ∈ samples, ∀ b ∈ samples, Number.outcome (f a b) = (Number.outcome (f b a)).swap :=
  forall₄_congr fun a ha b hb =>
    (Number.hasSign_outcome (hnan a ha b hb)).opposite_iff (Number.hasSign_outcome (hnan b hb a ha))

end Laws

/-! ## What the checks decide -/

section Checks

variable {ω : Type} {m : Type → Type} [Monad m] [LawfulMonad m] [MonadExceptOf (Fault ω) m]
  [Objects ω] {c : Comparator m ω} {samples : List (Value ω)} {f : Value ω → Value ω → Float}

theorem checkReflexive_decides_law (hc : c.Gives f samples) :
    Decides (checkReflexive c samples)
      (ReflexiveOn (fun a b => Number.tieOfNaN (f a b)) samples) := by
  apply (checkReflexive_decides hc).congr
  rw [reflexiveOn_iff (f := fun a b => Number.tieOfNaN (f a b)) fun a _ => Number.isNaN_tieOfNaN _]
  simp only [Number.outcome_tieOfNaN]

theorem checkAntisymmetric_decides_law (hc : c.Gives f samples) :
    Decides (checkAntisymmetric c samples)
      (AntisymmetricOn (fun a b => Number.tieOfNaN (f a b)) samples) := by
  apply (checkAntisymmetric_decides hc).congr
  rw [antisymmetricOn_iff (f := fun a b => Number.tieOfNaN (f a b))
    fun a _ b _ => Number.isNaN_tieOfNaN _]
  simp only [Number.outcome_tieOfNaN]

/-- **Each check decides its law with NaN as a tie.** For a comparator that gives numbers on the
samples, NaN and infinities included, and does nothing else: the first two checks find no violation
exactly when the law holds with every NaN replaced by zero, and the third one exactly when a result
is at most zero, and no NaN, wherever the two before it are so with NaN replaced by zero. Each check
decides its law itself where the results that the law is about are not NaN. -/
theorem checks_decide_laws_with_nan_as_tie (hc : c.Gives f samples) :
    let g : Value ω → Value ω → Float := fun a b => Number.tieOfNaN (f a b)
    Decides (checkReflexive c samples) (ReflexiveOn g samples) ∧
    Decides (checkAntisymmetric c samples) (AntisymmetricOn g samples) ∧
    Decides (checkTransitive c samples)
      (∀ a ∈ samples, ∀ b ∈ samples, ∀ d ∈ samples, g a b ≤ 0 → g b d ≤ 0 → f a d ≤ 0) ∧
    ((∀ a ∈ samples, (f a a).isNaN = false) →
      Decides (checkReflexive c samples) (ReflexiveOn f samples)) ∧
    ((∀ a ∈ samples, ∀ b ∈ samples, (f a b).isNaN = false) →
      Decides (checkAntisymmetric c samples) (AntisymmetricOn f samples) ∧
      Decides (checkTransitive c samples) (TransitiveOn f samples)) := by
  intro g
  have htransitive : Decides (checkTransitive c samples)
      (∀ a ∈ samples, ∀ b ∈ samples, ∀ d ∈ samples, g a b ≤ 0 → g b d ≤ 0 → f a d ≤ 0) := by
    simpa only [Number.not_zero_lt_iff_tieOfNaN] using checkTransitive_decides hc
  refine ⟨checkReflexive_decides_law hc, checkAntisymmetric_decides_law hc, htransitive,
    fun hnan => ?_, fun hnan => ⟨?_, ?_⟩⟩
  · exact (checkReflexive_decides hc).congr (reflexiveOn_iff hnan).symm
  · exact (checkAntisymmetric_decides hc).congr (antisymmetricOn_iff hnan).symm
  · refine htransitive.congr (forall₄_congr fun a ha b hb => forall₂_congr fun d hd => ?_)
    have hab : g a b = f a b := Number.tieOfNaN_of_not_isNaN (hnan a ha b hb)
    have hbd : g b d = f b d := Number.tieOfNaN_of_not_isNaN (hnan b hb d hd)
    rw [hab, hbd]

end Checks

/-- Whether a number is below another one, as -1 or 0, breaks one of the laws, with no NaN among the
results. -/
theorem checks_decide_laws_with_nan_as_tie_for_numbers :
    let _ : Objects Item := Catalog.objects #[]
    let f : Value Item → Value Item → Float
      | .number x, .number y => if x < y then -1 else 0
      | _, _ => 0
    let c : Comparator (Except (Fault Item)) Item := fun a b => pure (.number (f a b))
    let samples : List (Value Item) := [.number 1, .number 2]
    c.Gives f samples ∧ (∀ a ∈ samples, ∀ b ∈ samples, (f a b).isNaN = false) ∧
      ReflexiveOn f samples ∧ checkReflexive c samples = .ok none ∧
      ¬AntisymmetricOn f samples ∧ (∃ v, checkAntisymmetric c samples = .ok (some v)) ∧
      TransitiveOn f samples ∧ checkTransitive c samples = .ok none := by
  intro _ f c samples
  have hc : c.Gives f samples := fun _ _ _ _ => rfl
  have hnan : ∀ a ∈ samples, ∀ b ∈ samples, (f a b).isNaN = false := by decide
  have hreflexive : ReflexiveOn f samples := by decide
  have hantisymmetric : ¬AntisymmetricOn f samples := by decide
  have htransitive : TransitiveOn f samples := by decide
  obtain ⟨-, -, -, hself, hlaws⟩ := checks_decide_laws_with_nan_as_tie hc
  obtain ⟨hpairs, htriples⟩ := hlaws hnan
  exact ⟨hc, hnan, hreflexive, (hself fun a ha => hnan a ha a ha).accepts hreflexive,
    hantisymmetric, hpairs.refuses hantisymmetric, htransitive, htriples.accepts htransitive⟩

/-- The difference of an infinity and itself is NaN: the first two checks accept it although it
breaks their laws, and the third one refuses it although no result is at most zero. -/
theorem checks_take_nan_for_a_tie :
    let _ : Objects Item := Catalog.objects #[]
    let c : Comparator (Except (Fault Item)) Item := .difference
    let infinity : Float := 1 / 0
    let f : Value Item → Value Item → Float
      | .number x, .number y => x - y
      | _, _ => 0
    let samples : List (Value Item) := [.number infinity]
    c.Gives f samples ∧
      ¬ReflexiveOn f samples ∧ checkReflexive c samples = .ok none ∧
      ¬AntisymmetricOn f samples ∧ checkAntisymmetric c samples = .ok none ∧
      TransitiveOn f samples ∧ ∃ v, checkTransitive c samples = .ok (some v) := by
  intro _ c infinity f samples
  have hc : c.Gives f samples := by
    intro a ha b hb
    rw [List.mem_singleton.mp ha, List.mem_singleton.mp hb]
    rfl
  exact ⟨hc, by decide, (checkReflexive_decides hc).accepts (by decide),
    by decide, (checkAntisymmetric_decides hc).accepts (by decide),
    by decide, (checkTransitive_decides hc).refuses (by decide)⟩

end Arrange
