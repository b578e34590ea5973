import Arrange.Proofs.Order.Kind

/-!
# Ties are identities

In each of the five natural orders only the same content ties with itself: doubles are told apart
down to the sign of zero, and there is one NaN. So two values of one kind that tie are the same
value, unless they are dates, of which several may have one time.

For doubles this rests on what their places keep of them. A place is read off the sign, the exponent
and the mantissa of a word of 64 bits, and these are the whole word (`eq_of_fields`), so doubles at
one place are the same: `place_injective`.
-/

set_option autoImplicit false

namespace Arrange

open Std

namespace Number

/-! ## Doubles at one place -/

section Places

open Float.Model
open Float.Model.UnpackedFloat (unpackSign unpackExponent unpackMantissa)

variable {b c : BitVec Format.binary64.numBits}

theorem toNat_unpackSign (b : BitVec Format.binary64.numBits) :
    (unpackSign b).toNat = b.toNat / 2 ^ 63 % 2 := by
  show (BitVec.cast _ (BitVec.extractLsb 63 63 b)).toNat = _
  simp [Nat.shiftRight_eq_div_pow]

theorem toNat_unpackExponent (b : BitVec Format.binary64.numBits) :
    (unpackExponent b).toNat = b.toNat / 2 ^ 52 % 2 ^ 11 := by
  simp [unpackExponent, Format.binary64, Nat.shiftRight_eq_div_pow]

theorem toNat_unpackMantissa (b : BitVec Format.binary64.numBits) :
    (unpackMantissa b).toNat = b.toNat % 2 ^ 52 := by
  simp [unpackMantissa, Format.binary64]

/-- The sign, the exponent and the mantissa are the whole word. -/
theorem eq_of_fields
    (hsign : UnpackedFloat.Sign.ofBitVec (unpackSign b)
      = UnpackedFloat.Sign.ofBitVec (unpackSign c))
    (hexponent : (unpackExponent b).toNat = (unpackExponent c).toNat)
    (hmantissa : (unpackMantissa b).toNat = (unpackMantissa c).toNat) : b = c := by
  have hbit : (unpackSign b).toNat = (unpackSign c).toNat := by
    unfold UnpackedFloat.Sign.ofBitVec at hsign
    split_ifs at hsign <;> bv_omega
  rw [toNat_unpackSign, toNat_unpackSign] at hbit
  rw [toNat_unpackExponent, toNat_unpackExponent] at hexponent
  rw [toNat_unpackMantissa, toNat_unpackMantissa] at hmantissa
  have hb : b.toNat < 2 ^ 64 := b.isLt
  have hc : c.toNat < 2 ^ 64 := c.isLt
  apply BitVec.eq_of_toNat_eq
  omega

/-- The sign, the exponent and the mantissa of the word that is read as a double. A normal double
has one bit more than its mantissa, in front of it, and its exponent stands in the word as a number
that is 1075 more. -/
def fields : UnpackedFloat → UnpackedFloat.Sign × Int × Nat
  | .notANumber => (.positive, 2047, 2 ^ 51)
  | .infinity s => (s, 2047, 0)
  | .zero s => (s, 0, 0)
  | .finite s m e _ => if m < 2 ^ 52 then (s, 0, m) else (s, e + 1075, m - 2 ^ 52)

theorem fields_unpack (hb : Format.binary64.Valid b) :
    fields (UnpackedFloat.unpack _ b)
      = (UnpackedFloat.Sign.ofBitVec (unpackSign b), ((unpackExponent b).toNat : Int),
        (unpackMantissa b).toNat) := by
  have hlt : (unpackMantissa b).toNat < 2 ^ 52 := BitVec.isLt _
  by_cases htop : unpackExponent b = -1
  · by_cases hmantissa : unpackMantissa b = 0
    · have hread : UnpackedFloat.unpack _ b = .infinity _ := (if_pos htop).trans (if_pos hmantissa)
      rw [hread, htop, hmantissa]
      rfl
    · -- one word only is read as NaN
      rw [hb.eq_packedNaN htop hmantissa]
      rfl
  · by_cases hbottom : unpackExponent b = 0
    · by_cases hmantissa : unpackMantissa b = 0
      · have hread : UnpackedFloat.unpack _ b = .zero _ :=
          (if_neg htop).trans ((if_pos hbottom).trans (dif_pos hmantissa))
        rw [hread, hbottom, hmantissa]
        rfl
      · have hread : UnpackedFloat.unpack _ b = .finite _ _ _ _ :=
          (if_neg htop).trans ((if_pos hbottom).trans (dif_neg hmantissa))
        rw [hread, hbottom]
        exact if_pos hlt
    · have hread : UnpackedFloat.unpack _ b = .finite _ _ _ _ :=
        (if_neg htop).trans (if_neg hbottom)
      have hone : (1#1 ++ unpackMantissa b).toNat = 2 ^ 52 + (unpackMantissa b).toNat := by
        rw [BitVec.toNat_append, ← Nat.shiftLeft_add_eq_or_of_lt hlt]
        rfl
      rw [hread]
      refine (if_neg (by omega)).trans (Prod.ext rfl (Prod.ext ?_ ?_))
      · exact Int.sub_add_cancel _ 1075
      · exact Nat.sub_eq_of_eq_add' hone

theorem place_injective : Function.Injective place := by
  rintro ⟨⟨b, hb⟩⟩ ⟨⟨c, hc⟩⟩ h
  have hfields := (fields_unpack hb).symm.trans ((congrArg fields h).trans (fields_unpack hc))
  obtain ⟨hsign, hrest⟩ := Prod.mk.inj hfields
  obtain ⟨hexponent, hmantissa⟩ := Prod.mk.inj hrest
  obtain rfl : b = c :=
    UInt64.toBitVec_inj.mp (eq_of_fields hsign (Int.ofNat.inj hexponent) hmantissa)
  rfl

/-- Places tie when they are the same, or each that of a zero. -/
theorem eq_or_zero_places {p q : UnpackedFloat} (h : placeOrder p q = .eq) :
    p = q ∨ ∃ s t, p = .zero s ∧ q = .zero t := by
  obtain ⟨hband, hwithin⟩ := Ordering.then_eq_eq.mp h
  obtain ⟨hexponent, hmantissa⟩ := Ordering.then_eq_eq.mp hwithin
  replace hband : band p = band q := LawfulEqCmp.eq_of_compare hband
  replace hexponent : signedExponent p = signedExponent q := LawfulEqCmp.eq_of_compare hexponent
  replace hmantissa : signedMantissa p = signedMantissa q := LawfulEqCmp.eq_of_compare hmantissa
  -- the band tells the kind of a double and its sign, but for the sign of a zero
  cases p with
  | notANumber =>
      cases q with
      | notANumber => exact .inl rfl
      | zero => cases hband
      | _ t => cases t <;> cases hband
  | infinity s =>
      cases q with
      | infinity t => cases s <;> cases t <;> first | exact .inl rfl | cases hband
      | finite t => cases s <;> cases t <;> cases hband
      | _ => cases s <;> cases hband
  | zero s =>
      cases q with
      | zero t => exact .inr ⟨s, t, rfl, rfl⟩
      | notANumber => cases hband
      | _ t => cases t <;> cases hband
  | finite s m e =>
      cases q with
      | finite t n f =>
          obtain rfl : s = t := by cases s <;> cases t <;> first | rfl | cases hband
          have happly : Function.Injective s.apply := by
            cases s
            · exact neg_injective
            · exact Function.injective_id
          obtain rfl : e = f := happly hexponent
          obtain rfl : m = n := Int.ofNat.inj (happly hmantissa)
          exact .inl rfl
      | infinity t => cases s <;> cases t <;> cases hband
      | _ => cases s <;> cases hband

/-- Doubles whose places tie are the same or the two zeros. -/
theorem eq_or_zeros_of_placeOrder {x y : Float} (h : placeOrder (place x) (place y) = .eq) :
    x = y ∨ (x = 0 ∧ y = -0) ∨ (x = -0 ∧ y = 0) := by
  obtain hplace | ⟨s, t, hx, hy⟩ := eq_or_zero_places h
  · exact .inl (place_injective hplace)
  · cases s <;> cases t
    · exact .inl (place_injective (hx.trans hy.symm))
    · exact .inr (.inr ⟨place_injective hx, place_injective hy⟩)
    · exact .inr (.inl ⟨place_injective hx, place_injective hy⟩)
    · exact .inl (place_injective (hx.trans hy.symm))

end Places

/-! ## Contents -/

/-- The two zeros are the doubles that equal zero. -/
theorem beq_zero_iff {x : Float} : (x == 0) = true ↔ x = 0 ∨ x = -0 := by
  constructor
  · intro hzero
    obtain ⟨-, -, hplace⟩ := (beq_iff x 0).mp hzero
    obtain h | ⟨h, -⟩ | ⟨h, -⟩ := eq_or_zeros_of_placeOrder hplace
    · exact .inl h
    · exact .inl h
    · exact .inr h
  · rintro (rfl | rfl) <;> decide

/-- Doubles that tie are the same. -/
theorem eq_of_numberOrder {x y : Float} (h : numberOrder x y = .eq) : x = y := by
  rw [numberOrder_eq] at h
  obtain ⟨hplace, hsign⟩ := Ordering.then_eq_eq.mp h
  have hzero : isNegativeZero x = isNegativeZero y := by
    simpa [compareOn] using hsign
  -- the zeros share a place, but their signs differ
  obtain hsame | ⟨rfl, rfl⟩ | ⟨rfl, rfl⟩ := eq_or_zeros_of_placeOrder hplace
  · exact hsame
  · exact absurd hzero (by decide)
  · exact absurd hzero (by decide)

end Number

instance : LawfulEqCmp numberOrder := ⟨Number.eq_of_numberOrder⟩

instance : LawfulEqCmp integerOrder :=
  inferInstanceAs (LawfulEqCmp (compare : Int → Int → Ordering))

instance : LawfulEqCmp textOrder := by
  rw [textOrder_eq]
  infer_instance

instance : LawfulEqCmp boolOrder := by
  rw [boolOrder_eq]
  infer_instance

instance (kind : OrderedKind) : LawfulEqCmp kind.order :=
  match kind with
  | .number => inferInstanceAs (LawfulEqCmp numberOrder)
  | .bigint => inferInstanceAs (LawfulEqCmp integerOrder)
  | .text => inferInstanceAs (LawfulEqCmp textOrder)
  | .bool => inferInstanceAs (LawfulEqCmp boolOrder)
  | .date => inferInstanceAs (LawfulEqCmp numberOrder)

end Arrange
