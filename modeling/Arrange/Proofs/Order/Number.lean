import Arrange.Order.Primitive
import Arrange.Value.Conversion
import Mathlib.Tactic

/-!
# The order of doubles is a total preorder

A double is read as a place on a line (`Place`): the band it lies in, from the negative infinity
up to NaN, and within a band its exponent and mantissa. Numeric comparison is the comparison of
places (`compare_unpacked`), `numberOrder` refines it by the sign of zeros (`numberOrder_eq`), and
so `numberOrder` is oriented and transitive. `Number.relate` reads the sign of a result.
-/

set_option autoImplicit false

namespace Arrange.Number

open Float.Model Std

/-! ## Places on the line -/

/-- The band of a double: infinite, finite and zero on each side, and NaN above all. -/
def band : UnpackedFloat → Int
  | .infinity .negative => -2
  | .finite .negative _ _ _ => -1
  | .zero _ => 0
  | .finite .positive _ _ _ => 1
  | .infinity .positive => 2
  | .notANumber => 3

/-- The exponent of a finite double, turned round for a negative one. -/
def signedExponent : UnpackedFloat → Int
  | .finite s _ e _ => s.apply e
  | _ => 0

/-- The mantissa of a finite double, turned round for a negative one. -/
def signedMantissa : UnpackedFloat → Int
  | .finite s m _ _ => s.apply m
  | _ => 0

/-- The comparison of two doubles by their places. -/
def placeOrder : UnpackedFloat → UnpackedFloat → Ordering :=
  compareLex (compareOn band) (compareLex (compareOn signedExponent) (compareOn signedMantissa))

instance : TransCmp placeOrder :=
  inferInstanceAs (TransCmp (compareLex (compareOn band)
    (compareLex (compareOn signedExponent) (compareOn signedMantissa))))

theorem compare_neg (m n : Int) : compare (-m) (-n) = (compare m n).swap := by
  rw [Int.compare_swap]
  simp only [compare, compareOfLessAndEq]
  split_ifs <;> first | rfl | omega

theorem compare_natCast (m n : Nat) : compare (m : Int) (n : Int) = compare m n := by
  simp only [compare, compareOfLessAndEq]
  split_ifs <;> first | rfl | omega

/-- Numeric comparison is the comparison of places, and NaN stands nowhere. -/
theorem compare_unpacked (a b : UnpackedFloat) :
    a.compare b = if a.isNaN || b.isNaN then none else some (placeOrder a b) := by
  cases a with
  | notANumber => rfl
  | infinity s =>
      cases b with
      | finite t => cases s <;> cases t <;> rfl
      | infinity t => cases s <;> cases t <;> rfl
      | _ => cases s <;> rfl
  | zero s =>
      cases b with
      | finite t => cases t <;> rfl
      | infinity t => cases t <;> rfl
      | _ => rfl
  | finite s m e =>
      cases b with
      | finite t n f =>
          cases s <;> cases t
          -- below zero a larger exponent and a larger mantissa stand further left
          · show some ((compare e f).then (compare m n)).swap
              = some ((compare (-e) (-f)).then (compare (-(m : Int)) (-(n : Int))))
            rw [compare_neg, compare_neg, compare_natCast, Ordering.swap_then]
          · rfl
          · rfl
          · show some ((compare e f).then (compare m n))
              = some ((compare e f).then (compare (m : Int) (n : Int)))
            rw [compare_natCast]
      | infinity t => cases s <;> cases t <;> rfl
      | _ => cases s <;> rfl

/-! ## Comparing doubles -/

/-- The place of a double. -/
def place (x : Float) : UnpackedFloat := x.toModel.unpack

theorem lt_iff (x y : Float) :
    x < y ↔ x.isNaN = false ∧ y.isNaN = false ∧ placeOrder (place x) (place y) = .lt := by
  show decide (((place x).compare (place y) == some .lt) = true) = true ↔
    (place x).isNaN = false ∧ (place y).isNaN = false ∧ _
  rw [compare_unpacked]
  cases (place x).isNaN <;> cases (place y).isNaN <;> simp

theorem beq_iff (x y : Float) :
    x == y ↔ x.isNaN = false ∧ y.isNaN = false ∧ placeOrder (place x) (place y) = .eq := by
  show ((place x).compare (place y) == some .eq) = true ↔
    (place x).isNaN = false ∧ (place y).isNaN = false ∧ _
  rw [compare_unpacked]
  cases (place x).isNaN <;> cases (place y).isNaN <;> simp

/-- Where one double stands relative to another is the comparison of their places. -/
theorem relate_eq (x y : Float) :
    relate x y = if x.isNaN || y.isNaN then none else some (placeOrder (place x) (place y)) := by
  have hswap : placeOrder (place y) (place x) = (placeOrder (place x) (place y)).swap :=
    OrientedCmp.eq_swap
  simp only [relate, lt_iff, hswap]
  cases x.isNaN <;> cases y.isNaN <;> cases placeOrder (place x) (place y) <;> simp

/-! ## The total order -/

/-- The negative one of the zeros is the only double whose place is the negative zero. -/
theorem place_of_isNegativeZero {x : Float} (h : isNegativeZero x = true) :
    place x = .zero .negative := by
  obtain rfl : x = -0 := of_decide_eq_true h
  rfl

theorem placeOrder_of_isNaN {a b : UnpackedFloat} (ha : a.isNaN = true) :
    placeOrder a b = if b.isNaN then .eq else .gt := by
  cases a with
  | notANumber =>
      cases b with
      | infinity s => cases s <;> rfl
      | finite s => cases s <;> rfl
      | _ => rfl
  | _ => cases ha

/-- `numberOrder` goes by place, then by the sign of zeros. -/
theorem numberOrder_eq :
    numberOrder = compareLex (fun x y => placeOrder (place x) (place y))
      (compareOn fun x => !isNegativeZero x) := by
  funext x y
  have hswap : placeOrder (place y) (place x) = (placeOrder (place x) (place y)).swap :=
    OrientedCmp.eq_swap
  -- a negative zero is not NaN, so that the sign of zeros says nothing about NaN
  have hzero : ∀ z : Float, z.isNaN = true → isNegativeZero z = false := by
    intro z hz
    by_contra h
    have hnan : (place z).isNaN = true := hz
    rw [place_of_isNegativeZero (Bool.eq_true_of_not_eq_false h)] at hnan
    cases hnan
  show numberOrder x y
    = (placeOrder (place x) (place y)).then (compare (!isNegativeZero x) (!isNegativeZero y))
  simp only [numberOrder, lt_iff, hswap]
  cases hx : x.isNaN with
  | true =>
      rw [hzero x hx, placeOrder_of_isNaN (show (place x).isNaN = true from hx)]
      cases hy : y.isNaN with
      | true => rw [hzero y hy, show (place y).isNaN = true from hy]; rfl
      | false => rw [show (place y).isNaN = false from hy]; rfl
  | false =>
      cases hy : y.isNaN with
      | true =>
          have h : placeOrder (place y) (place x) = _ :=
            placeOrder_of_isNaN (show (place y).isNaN = true from hy)
          rw [hswap, show (place x).isNaN = false from hx] at h
          rw [Ordering.swap_eq_gt.mp h]
          rfl
      | false =>
          cases placeOrder (place x) (place y) <;> cases isNegativeZero x <;>
            cases isNegativeZero y <;> rfl

instance : TransCmp (fun x y : Float => placeOrder (place x) (place y)) where
  eq_swap := OrientedCmp.eq_swap
  isLE_trans := TransCmp.isLE_trans

instance : TransCmp numberOrder := by
  rw [numberOrder_eq]
  infer_instance

/-! ## Signs -/

/-- The outcome that a double stands for as the result of a comparison. -/
def HasSign (x : Float) (o : Ordering) : Prop := relate x 0 = some o

theorem HasSign.eq_place {x : Float} {o : Ordering} (h : HasSign x o) :
    x.isNaN = false ∧ placeOrder (place x) (place 0) = o := by
  unfold HasSign at h
  rw [relate_eq] at h
  by_cases hnan : (x.isNaN || (0 : Float).isNaN) = true
  · rw [if_pos hnan] at h
    cases h
  · rw [if_neg hnan] at h
    simp only [Bool.or_eq_true, not_or, Bool.not_eq_true] at hnan
    exact ⟨hnan.1, Option.some.inj h⟩

/-- A number is a tie exactly when its sign is that of zero. -/
theorem HasSign.beq_zero_iff {x : Float} {o : Ordering} (h : HasSign x o) :
    (x == 0) = true ↔ o = .eq := by
  obtain ⟨hx, ho⟩ := h.eq_place
  rw [beq_iff, ho]
  constructor
  · rintro ⟨-, -, heq⟩
    exact heq
  · intro heq
    exact ⟨hx, by decide, heq⟩

theorem le_iff (x y : Float) :
    x ≤ y ↔ x.isNaN = false ∧ y.isNaN = false ∧ (placeOrder (place x) (place y)).isLE := by
  show decide ((((place x).compare (place y)).any (·.isLE)) = true) = true ↔
    (place x).isNaN = false ∧ (place y).isNaN = false ∧ _
  rw [compare_unpacked]
  cases (place x).isNaN <;> cases (place y).isNaN <;> simp

/-- A number is at most zero exactly when its sign is. -/
theorem HasSign.le_zero_iff {x : Float} {o : Ordering} (h : HasSign x o) :
    x ≤ 0 ↔ o.isLE := by
  obtain ⟨hx, ho⟩ := h.eq_place
  rw [le_iff, ho]
  constructor
  · rintro ⟨-, -, hle⟩
    exact hle
  · intro hle
    exact ⟨hx, by decide, hle⟩

/-- A number is below zero exactly when its sign is. -/
theorem HasSign.lt_zero_iff {x : Float} {o : Ordering} (h : HasSign x o) :
    x < 0 ↔ o = .lt := by
  obtain ⟨hx, ho⟩ := h.eq_place
  rw [lt_iff, ho]
  constructor
  · rintro ⟨-, -, hlt⟩
    exact hlt
  · intro hlt
    exact ⟨hx, by decide, hlt⟩

end Arrange.Number
