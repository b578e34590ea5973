import Arrange.Text.Hash
import Mathlib.Algebra.BigOperators.Fin
import Mathlib.Data.Int.ModEq
import Mathlib.Logic.Function.Basic
import Mathlib.Tactic

/-!
# Hash codes as polynomials

The wrapping arithmetic of the hash is arithmetic modulo `2 ^ 32`, in which a hash code is the
polynomial in 31 of the units of its text (`hash_modEq`). Each step can be undone, for 31 is odd and
so a unit of the 32-bit words; a text that follows two others therefore neither makes their hash
codes equal nor tells them apart (`hash_append_inj`). Main statement: `hash_is_polynomial_as_word`.
-/

set_option autoImplicit false

namespace Arrange.Text

/-! ## Undoing a step -/

/-- The inverse of 31 in the arithmetic of 32-bit words. -/
def inverseOf31 : Int32 := -1108378657

theorem inverseOf31_mul (h : Int32) : inverseOf31 * (31 * h) = h := by
  calc inverseOf31 * (31 * h)
      = inverseOf31 * 31 * h := (Int32.mul_assoc _ _ _).symm
    _ = 1 * h := by rw [show inverseOf31 * 31 = 1 by decide]
    _ = h := Int32.one_mul h

theorem hashStep_injective (u : UInt16) : Function.Injective (hashStep · u) := by
  intro h k heq
  have hmul : 31 * h = 31 * k := (Int32.add_left_inj u.toUInt32.toInt32).mp heq
  rw [← inverseOf31_mul h, hmul, inverseOf31_mul]

theorem foldl_hashStep_injective (t : Text) : Function.Injective (fun h => t.foldl hashStep h) := by
  induction t with
  | nil => exact fun _ _ heq => heq
  | cons u t ih =>
      intro h k heq
      exact hashStep_injective u (ih heq)

theorem hash_append (s t : Text) : hash (s ++ t) = t.foldl hashStep (hash s) :=
  List.foldl_append

/-- What follows two texts neither hides nor makes a difference of their hash codes. -/
theorem hash_append_inj (s s' t : Text) : hash (s ++ t) = hash (s' ++ t) ↔ hash s = hash s' := by
  rw [hash_append, hash_append]
  exact (foldl_hashStep_injective t).eq_iff

/-! ## The polynomial -/

/-- The polynomial in 31 whose coefficients are the units of a text, the last one constant. -/
def polynomial (t : Text) : Int :=
  ∑ i : Fin t.length, (t[i].toNat : Int) * 31 ^ (t.length - 1 - i)

theorem polynomial_cons (u : UInt16) (t : Text) :
    polynomial (u :: t) = (u.toNat : Int) * 31 ^ t.length + polynomial t := by
  have hpower (i : Fin t.length) : t.length - (i + 1) = t.length - 1 - i := by omega
  calc polynomial (u :: t)
      = (u.toNat : Int) * 31 ^ t.length
          + ∑ i : Fin t.length, (t[i].toNat : Int) * 31 ^ (t.length - (i + 1)) :=
        Fin.sum_univ_succ (n := t.length) _
    _ = (u.toNat : Int) * 31 ^ t.length + polynomial t := by
        simp only [hpower, polynomial]

theorem polynomial_append (s t : Text) :
    polynomial (s ++ t) = polynomial s * 31 ^ t.length + polynomial t := by
  induction s with
  | nil => simp [polynomial]
  | cons u s ih =>
      rw [List.cons_append, polynomial_cons, polynomial_cons, ih, List.length_append, pow_add]
      ring

/-! ## Words -/

/-- A unit is a nonnegative word. -/
theorem toInt_unit (u : UInt16) : u.toUInt32.toInt32.toInt = u.toNat := by
  have hsmall : 2 * u.toUInt32.toBitVec.toNat < 2 ^ 32 := by
    have hunit := u.toNat_lt
    simp
    omega
  rw [← Int32.toInt_toBitVec, UInt32.toBitVec_toInt32, BitVec.toInt_eq_toNat_of_lt hsmall]
  simp

theorem toInt_hashStep (h : Int32) (u : UInt16) :
    (hashStep h u).toInt ≡ 31 * h.toInt + u.toNat [ZMOD 2 ^ 32] := by
  have hmul : (31 * h).toInt ≡ 31 * h.toInt [ZMOD 2 ^ 32] := by
    rw [Int32.toInt_mul]
    exact Int.bmod_emod
  have hadd : (hashStep h u).toInt ≡ (31 * h).toInt + u.toNat [ZMOD 2 ^ 32] := by
    rw [hashStep, Int32.toInt_add, toInt_unit]
    exact Int.bmod_emod
  exact hadd.trans (hmul.add_right _)

theorem foldl_hashStep_modEq (h : Int32) (t : Text) :
    (t.foldl hashStep h).toInt ≡ h.toInt * 31 ^ t.length + polynomial t [ZMOD 2 ^ 32] := by
  induction t generalizing h with
  | nil => simp [polynomial]
  | cons u t ih =>
      have hstep := (toInt_hashStep h u).mul_right (31 ^ t.length)
      calc ((u :: t).foldl hashStep h).toInt
          ≡ (hashStep h u).toInt * 31 ^ t.length + polynomial t [ZMOD 2 ^ 32] := ih _
        _ ≡ (31 * h.toInt + u.toNat) * 31 ^ t.length + polynomial t [ZMOD 2 ^ 32] :=
            hstep.add_right _
        _ = h.toInt * 31 ^ (u :: t).length + polynomial (u :: t) := by
            rw [polynomial_cons, List.length_cons]
            ring

theorem hash_modEq (t : Text) : (hash t).toInt ≡ polynomial t [ZMOD 2 ^ 32] := by
  have hrun := foldl_hashStep_modEq 0 t
  rwa [Int32.toInt_zero, zero_mul, zero_add] at hrun

/-- Of the integers that are congruent modulo `2 ^ 32` one is a signed word. -/
theorem eq_toInt_iff (h : Int32) (z : Int) :
    z = h.toInt ↔ (-2 ^ 31 ≤ z ∧ z < 2 ^ 31) ∧ z ≡ h.toInt [ZMOD 2 ^ 32] := by
  have hlow := h.le_toInt
  have hhigh := h.toInt_lt
  constructor
  · rintro rfl
    exact ⟨⟨hlow, hhigh⟩, rfl⟩
  · rintro ⟨⟨hzlow, hzhigh⟩, hz⟩
    obtain ⟨k, hk⟩ := hz.dvd
    omega

/-- **The hash code of a text is its polynomial as a signed 32-bit word**, the only one congruent to
it. So the hash code of two texts joined is that of the first one shifted by the second one's
length, plus that of the second one; and a text that follows neither hides nor makes a difference of
hash codes. -/
theorem hash_is_polynomial_as_word (s s' t : Text) :
    (∀ z : Int, z = (hash s).toInt ↔
      (-2 ^ 31 ≤ z ∧ z < 2 ^ 31) ∧ z ≡ polynomial s [ZMOD 2 ^ 32]) ∧
    (hash (s ++ t)).toInt ≡ (hash s).toInt * 31 ^ t.length + (hash t).toInt [ZMOD 2 ^ 32] ∧
    (hash (s ++ t) = hash (s' ++ t) ↔ hash s = hash s') := by
  refine ⟨fun z => ?_, ?_, hash_append_inj s s' t⟩
  · rw [eq_toInt_iff]
    refine and_congr_right fun _ => ⟨fun hz => ?_, fun hz => ?_⟩
    · exact hz.trans (hash_modEq s)
    · exact hz.trans (hash_modEq s).symm
  · calc (hash (s ++ t)).toInt
        ≡ polynomial (s ++ t) [ZMOD 2 ^ 32] := hash_modEq _
      _ = polynomial s * 31 ^ t.length + polynomial t := polynomial_append s t
      _ ≡ (hash s).toInt * 31 ^ t.length + (hash t).toInt [ZMOD 2 ^ 32] :=
          (((hash_modEq s).mul_right _).add (hash_modEq t)).symm

example : hash (Text.ofString "sorted") = -896593219 := by decide

end Arrange.Text
