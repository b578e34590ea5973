import Arrange.Text.CodePoint
import Mathlib.Data.List.Chain

/-!
# The one way to cut a text into code points

A piece of a text is a single unit or a surrogate pair, and two pieces that follow one another never
are the halves of a pair. These rules leave one way to cut a text, and `codePoints` is it
(`cutInto_iff`).
-/

set_option autoImplicit false

namespace Arrange.Text

/-! ## Rules for pieces -/

/-- A piece is a single unit, which may be a surrogate that stands alone, or a surrogate pair. -/
inductive IsPiece : Text → Prop
  | unit (u : UInt16) : IsPiece [u]
  | pair {high low : UInt16} (hhigh : isHighSurrogate high = true)
      (hlow : isLowSurrogate low = true) : IsPiece [high, low]

/-- Two pieces are the halves of a surrogate pair. -/
def AreHalves (p q : Text) : Prop :=
  ∃ high low, p = [high] ∧ q = [low] ∧ isHighSurrogate high = true ∧ isLowSurrogate low = true

/-- A text is cut into pieces, and no surrogate pair is cut apart. -/
structure CutInto (t : Text) (pieces : List Text) : Prop where
  joined : pieces.flatten = t
  piece : ∀ p ∈ pieces, IsPiece p
  whole : pieces.IsChain fun p q => ¬ AreHalves p q

theorem isLowSurrogate_of_isHighSurrogate {u : UInt16} (h : isHighSurrogate u = true) :
    isLowSurrogate u = false := by
  simp only [isHighSurrogate, isLowSurrogate, Bool.and_eq_true, Bool.and_eq_false_iff,
    decide_eq_true_eq, decide_eq_false_iff_not, UInt16.le_iff_toNat_le, UInt16.lt_iff_toNat_lt] at *
  omega

theorem IsPiece.ne_nil {p : Text} (h : IsPiece p) : p ≠ [] := by
  cases h <;> simp

/-! ## Cutting into code points -/

/-- The first piece opens with the first unit. -/
theorem head?_codePoints_cons (u : UInt16) (rest : Text) :
    (codePoints (u :: rest)).head? = some [u] ∨
      ∃ v, (codePoints (u :: rest)).head? = some [u, v] := by
  cases rest with
  | nil => exact .inl rfl
  | cons v rest =>
      rw [codePoints]
      split
      · exact .inr ⟨v, rfl⟩
      · exact .inl rfl

theorem cutInto_codePoints (t : Text) : CutInto t (codePoints t) where
  joined := flatten_codePoints t
  piece := by
    fun_induction codePoints t with
    | case1 => simp
    | case2 u => simpa using IsPiece.unit u
    | case3 u v rest h ih =>
        obtain ⟨hhigh, hlow⟩ := Bool.and_eq_true_iff.mp h
        exact List.forall_mem_cons.mpr ⟨.pair hhigh hlow, ih⟩
    | case4 u v rest h ih => exact List.forall_mem_cons.mpr ⟨.unit u, ih⟩
  whole := by
    fun_induction codePoints t with
    | case1 => exact .nil
    | case2 u => exact .singleton _
    | case3 u v rest h ih =>
        refine List.isChain_cons.mpr ⟨fun q _ => ?_, ih⟩
        rintro ⟨high, low, hp, -⟩
        cases hp
    | case4 u v rest h ih =>
        refine List.isChain_cons.mpr ⟨fun q hq => ?_, ih⟩
        rintro ⟨high, low, hp, rfl, hhigh, hlow⟩
        cases hp
        -- the second half would open the rest, and then both are one piece
        rcases head?_codePoints_cons v rest with hhead | ⟨w, hhead⟩
        · rw [hhead] at hq
          cases hq
          exact h (Bool.and_eq_true_iff.mpr ⟨hhigh, hlow⟩)
        · rw [hhead] at hq
          cases hq

/-! ## No other way -/

theorem CutInto.of_cons {t p : Text} {pieces : List Text} (h : CutInto (p ++ t) (p :: pieces)) :
    CutInto t pieces where
  joined := List.append_cancel_left h.joined
  piece := fun q hq => h.piece q (List.mem_cons_of_mem p hq)
  whole := h.whole.tail

/-- The first piece takes the second unit too exactly where both are a pair. -/
theorem CutInto.cons_cases {u : UInt16} {t : Text} {pieces : List Text}
    (h : CutInto (u :: t) pieces) :
    (∃ rest, pieces = [u] :: rest ∧ CutInto t rest ∧
      ∀ v ∈ t.head?, ¬(isHighSurrogate u = true ∧ isLowSurrogate v = true)) ∨
    ∃ v s rest, t = v :: s ∧ pieces = [u, v] :: rest ∧ CutInto s rest ∧
      isHighSurrogate u = true ∧ isLowSurrogate v = true := by
  cases pieces with
  | nil => cases h.joined
  | cons p rest =>
      have hjoined := h.joined
      cases h.piece p (by simp) with
      | unit w =>
          obtain ⟨rfl, htail⟩ : w = u ∧ rest.flatten = t := by simpa using hjoined
          have hrest : CutInto t rest := CutInto.of_cons (p := [w]) h
          refine .inl ⟨rest, rfl, hrest, ?_⟩
          rintro v hv ⟨hhigh, hlow⟩
          -- the next piece opens with the low surrogate, so it is that surrogate alone
          cases rest with
          | nil =>
              rw [← htail] at hv
              cases hv
          | cons q rest =>
              have hnot := (List.isChain_cons_cons.mp h.whole).1
              cases hrest.piece q (by simp) with
              | unit x =>
                  rw [← htail] at hv
                  obtain rfl : x = v := Option.some.inj hv
                  exact hnot ⟨w, x, rfl, rfl, hhigh, hlow⟩
              | pair hx =>
                  rw [← htail] at hv
                  cases hv
                  rw [isLowSurrogate_of_isHighSurrogate hx] at hlow
                  cases hlow
      | @pair high low hhigh hlow =>
          obtain ⟨rfl, htail⟩ : high = u ∧ low :: rest.flatten = t := by simpa using hjoined
          subst htail
          exact .inr ⟨low, rest.flatten, rest, rfl, rfl, CutInto.of_cons (p := [high, low]) h,
            hhigh, hlow⟩

theorem CutInto.eq_nil {pieces : List Text} (h : CutInto [] pieces) : pieces = [] := by
  cases pieces with
  | nil => rfl
  | cons p rest =>
      have hnil : p = [] := (List.append_eq_nil_iff.mp h.joined).1
      exact absurd hnil (h.piece p (by simp)).ne_nil

theorem CutInto.eq_codePoints {t : Text} {pieces : List Text} (h : CutInto t pieces) :
    pieces = codePoints t := by
  fun_induction codePoints t generalizing pieces with
  | case1 => exact h.eq_nil
  | case2 u =>
      rcases h.cons_cases with ⟨rest, rfl, hrest, -⟩ | ⟨v, s, rest, hcons, -⟩
      · rw [hrest.eq_nil]
      · cases hcons
  | case3 u v rest hpair ih =>
      rcases h.cons_cases with ⟨_, -, -, hapart⟩ | ⟨w, s, tail, hcons, rfl, htail, -⟩
      · exact absurd (Bool.and_eq_true_iff.mp hpair) (hapart v rfl)
      · cases hcons
        rw [ih htail]
  | case4 u v rest hpair ih =>
      rcases h.cons_cases with ⟨tail, rfl, htail, -⟩ | ⟨w, s, tail, hcons, -, -, hhigh, hlow⟩
      · rw [ih htail]
      · cases hcons
        exact absurd (Bool.and_eq_true_iff.mpr ⟨hhigh, hlow⟩) hpair

/-- A text can be cut in one way: into its code points. -/
theorem cutInto_iff (t : Text) (pieces : List Text) : CutInto t pieces ↔ pieces = codePoints t := by
  constructor
  · exact CutInto.eq_codePoints
  · rintro rfl
    exact cutInto_codePoints t

end Arrange.Text
