import Arrange.Text.Quoted
import Mathlib.Data.List.Basic

/-!
# Quoted texts read back

`unquoted?` reads a text between double quotes, with all escapes that there are and hexadecimal
digits in either case. Whatever a text is, `quoted` writes it so that it is read back, and what
stands between the quotes is safe there: it holds no control, every double quote in it is escaped,
and so is every surrogate without its other half (`quotes_quoted`). Both are shown along the pieces
that `escaped` writes one after another (`EscapedAs`).
-/

set_option autoImplicit false

namespace Arrange.Text

/-! ## Texts without lone surrogates -/

/-- Every surrogate of the text is half of a pair. -/
inductive WellFormed : Text → Prop
  | nil : WellFormed []
  | unit {u : UInt16} {t : Text} (hhigh : isHighSurrogate u = false)
      (hlow : isLowSurrogate u = false) (h : WellFormed t) : WellFormed (u :: t)
  | pair {high low : UInt16} {t : Text} (hhigh : isHighSurrogate high = true)
      (hlow : isLowSurrogate low = true) (h : WellFormed t) : WellFormed (high :: low :: t)

theorem WellFormed.append {s t : Text} (hs : WellFormed s) (ht : WellFormed t) :
    WellFormed (s ++ t) := by
  induction hs with
  | nil => exact ht
  | unit hhigh hlow _ ih => exact .unit hhigh hlow ih
  | pair hhigh hlow _ ih => exact .pair hhigh hlow ih

theorem WellFormed.ascii {u : UInt16} {t : Text} (hu : u < 0x80) (h : WellFormed t) :
    WellFormed (u :: t) := by
  have hlt : ¬ 0xD800 ≤ u := UInt16.not_le.mpr (UInt16.lt_trans hu (by decide))
  have hlt' : ¬ 0xDC00 ≤ u := UInt16.not_le.mpr (UInt16.lt_trans hu (by decide))
  exact .unit (by simp [isHighSurrogate, hlt]) (by simp [isLowSurrogate, hlt']) h

/-! ## Units between quotes -/

/-- A unit that stands for itself between quotes, unless it is a lone surrogate. -/
def isPlain (u : UInt16) : Bool := 0x20 ≤ u && u ≠ quoteMark && u ≠ backslash

theorem isPlain_iff (u : UInt16) :
    isPlain u = true ↔ 0x20 ≤ u ∧ u ≠ quoteMark ∧ u ≠ backslash := by
  simp [isPlain, and_assoc]

theorem isPlain_of_le {u : UInt16} (h : 0xD800 ≤ u) : isPlain u = true := by
  rw [isPlain_iff]
  refine ⟨UInt16.le_trans (by decide) h, ?_, ?_⟩
  · rintro rfl
    exact absurd h (by decide)
  · rintro rfl
    exact absurd h (by decide)

theorem isPlain_of_isHighSurrogate {u : UInt16} (h : isHighSurrogate u = true) :
    isPlain u = true := by
  have hle : 0xD800 ≤ u := by
    simp only [isHighSurrogate, Bool.and_eq_true, decide_eq_true_eq] at h
    exact h.1
  exact isPlain_of_le hle

theorem isPlain_of_isLowSurrogate {u : UInt16} (h : isLowSurrogate u = true) :
    isPlain u = true := by
  have hle : 0xDC00 ≤ u := by
    simp only [isLowSurrogate, Bool.and_eq_true, decide_eq_true_eq] at h
    exact h.1
  exact isPlain_of_le (UInt16.le_trans (by decide) hle)

/-- Whether every double quote is escaped. The flag says whether the first unit is escaped. -/
def quotesEscaped : Bool → Text → Bool
  | _, [] => true
  | true, _ :: rest => quotesEscaped false rest
  | false, u :: rest => u ≠ quoteMark && quotesEscaped (u == backslash) rest

/-- What can stand between quotes: no surrogate stands alone, there is no control, and every double
quote is escaped. -/
structure SafeBetweenQuotes (body : Text) : Prop where
  wellFormed : WellFormed body
  noControl : ∀ u ∈ body, 0x20 ≤ u
  quotes : quotesEscaped false body = true

/-! ## Reading -/

/-- The value of a hexadecimal digit. -/
def hexValue? (u : UInt16) : Option Nat :=
  if 0x30 ≤ u ∧ u ≤ 0x39 then some (u.toNat - 0x30)
  else if 0x41 ≤ u ∧ u ≤ 0x46 then some (u.toNat - 0x41 + 10)
  else if 0x61 ≤ u ∧ u ≤ 0x66 then some (u.toNat - 0x61 + 10)
  else none

/-- The unit with these four hexadecimal digits. -/
def hexUnit? (a b c d : UInt16) : Option UInt16 := do
  return (0x1000 * (← hexValue? a) + 0x100 * (← hexValue? b) + 0x10 * (← hexValue? c)
    + (← hexValue? d)).toUInt16

/-- The unit that a letter stands for behind a backslash. -/
def unitOfLetter? (letter : UInt16) : Option UInt16 :=
  if letter = quoteMark ∨ letter = backslash ∨ letter = 0x2F then some letter
  else if letter = 0x62 then some 0x08
  else if letter = 0x66 then some 0x0C
  else if letter = 0x6E then some 0x0A
  else if letter = 0x72 then some 0x0D
  else if letter = 0x74 then some 0x09
  else none

/-- The text that is written up to the closing quote, which must be the last unit. Controls must be
escaped. -/
def unescaped? : Text → Option Text
  | [] => none
  | [u] => if u = quoteMark then some [] else none
  | u :: v :: rest =>
      if u = quoteMark ∨ u < 0x20 then none
      else if u ≠ backslash then (unescaped? (v :: rest)).map (u :: ·)
      else if v = 0x75 then
        match rest with
        | a :: b :: c :: d :: rest =>
            match hexUnit? a b c d with
            | some w => (unescaped? rest).map (w :: ·)
            | none => none
        | _ => none
      else
        match unitOfLetter? v with
        | some w => (unescaped? rest).map (w :: ·)
        | none => none

/-- The text that is written between double quotes. -/
def unquoted? : Text → Option Text
  | u :: rest => if u = quoteMark then unescaped? rest else none
  | [] => none

/-! ## Hexadecimal digits -/

theorem hexValue?_hexDigit : ∀ n < 16, hexValue? (hexDigit n) = some n := by decide

theorem hexDigit_lt : ∀ n < 16, hexDigit n < 0x80 := by decide

theorem isPlain_hexDigit : ∀ n < 16, isPlain (hexDigit n) = true := by decide

theorem hexUnit?_hexDigits (u : UInt16) :
    hexUnit? (hexDigit (u.toNat / 0x1000)) (hexDigit (u.toNat / 0x100 % 0x10))
      (hexDigit (u.toNat / 0x10 % 0x10)) (hexDigit (u.toNat % 0x10)) = some u := by
  have hu := u.toNat_lt
  have hsum : 0x1000 * (u.toNat / 0x1000) + 0x100 * (u.toNat / 0x100 % 0x10)
      + 0x10 * (u.toNat / 0x10 % 0x10) + u.toNat % 0x10 = u.toNat := by omega
  rw [hexUnit?, hexValue?_hexDigit _ (by omega), hexValue?_hexDigit _ (by omega),
    hexValue?_hexDigit _ (by omega), hexValue?_hexDigit _ (by omega)]
  show some _ = some u
  rw [hsum]
  exact congrArg some UInt16.ofNat_toNat

/-! ## The pieces of an escaped text -/

/-- A body that writes a text piece by piece: a unit as itself or by one of its escapes, a surrogate
pair as itself. -/
inductive EscapedAs : Text → Text → Prop
  | nil : EscapedAs [] []
  | plain {u : UInt16} {t body : Text} (hplain : isPlain u = true)
      (hhigh : isHighSurrogate u = false) (hlow : isLowSurrogate u = false)
      (h : EscapedAs t body) : EscapedAs (u :: t) (u :: body)
  | pair {high low : UInt16} {t body : Text} (hhigh : isHighSurrogate high = true)
      (hlow : isLowSurrogate low = true) (h : EscapedAs t body) :
      EscapedAs (high :: low :: t) (high :: low :: body)
  | short {u letter : UInt16} {t body : Text} (hshort : shortEscape? u = some letter)
      (h : EscapedAs t body) : EscapedAs (u :: t) (backslash :: letter :: body)
  | hex (u : UInt16) {t body : Text} (h : EscapedAs t body) :
      EscapedAs (u :: t) (hexEscape u ++ body)

theorem EscapedAs.escapeUnit {u : UInt16} {t body : Text} (hhigh : isHighSurrogate u = false)
    (hlow : isLowSurrogate u = false) (h : EscapedAs t body) :
    EscapedAs (u :: t) (Text.escapeUnit u ++ body) := by
  rw [Text.escapeUnit]
  cases hshort : shortEscape? u with
  | some letter => exact .short hshort h
  | none =>
      by_cases hcontrol : u < 0x20
      · simp only [hcontrol, if_true]
        exact .hex u h
      · simp only [hcontrol, if_false]
        refine .plain ?_ hhigh hlow h
        -- a quote and a backslash have a short escape
        have hquote : u ≠ quoteMark := by
          rintro rfl
          cases hshort
        have hbackslash : u ≠ backslash := by
          rintro rfl
          cases hshort
        simp [isPlain, hquote, hbackslash, UInt16.not_lt.mp hcontrol]

theorem escapedAs_escaped (t : Text) : EscapedAs t (escaped t) := by
  fun_induction escaped t with
  | case1 => exact .nil
  | case2 u => simpa using EscapedAs.hex u .nil
  | case3 u hsurrogate =>
      have hnot : isHighSurrogate u = false ∧ isLowSurrogate u = false := by simpa using hsurrogate
      simpa using EscapedAs.nil.escapeUnit hnot.1 hnot.2
  | case4 u v rest hhigh hlow ih => exact .pair hhigh hlow ih
  | case5 u v rest hhigh hlow ih => exact .hex u ih
  | case6 u v rest hhigh hlow ih => exact .hex u ih
  | case7 u v rest hhigh hlow ih =>
      exact ih.escapeUnit (Bool.eq_false_iff.mpr hhigh) (Bool.eq_false_iff.mpr hlow)

/-! ## What stands between the quotes -/

theorem quotesEscaped_plain {u : UInt16} (hplain : isPlain u = true) (body : Text) :
    quotesEscaped false (u :: body) = quotesEscaped false body := by
  obtain ⟨-, hquote, hbackslash⟩ := (isPlain_iff u).mp hplain
  rw [quotesEscaped, beq_eq_false_iff_ne.mpr hbackslash]
  simp [hquote]

theorem SafeBetweenQuotes.ascii {u : UInt16} {body : Text} (hplain : isPlain u = true)
    (hu : u < 0x80) (h : SafeBetweenQuotes body) : SafeBetweenQuotes (u :: body) where
  wellFormed := h.wellFormed.ascii hu
  noControl := List.forall_mem_cons.mpr ⟨((isPlain_iff u).mp hplain).1, h.noControl⟩
  quotes := by
    rw [quotesEscaped_plain hplain]
    exact h.quotes

/-- Behind a backslash any letter is safe, a double quote too. -/
theorem SafeBetweenQuotes.escape {letter : UInt16} {body : Text} (hle : 0x20 ≤ letter)
    (hlt : letter < 0x80) (h : SafeBetweenQuotes body) :
    SafeBetweenQuotes (backslash :: letter :: body) where
  wellFormed := (h.wellFormed.ascii hlt).ascii (by decide)
  noControl := List.forall_mem_cons.mpr ⟨by decide, List.forall_mem_cons.mpr ⟨hle, h.noControl⟩⟩
  quotes := h.quotes

theorem SafeBetweenQuotes.hexEscape (u : UInt16) {body : Text} (h : SafeBetweenQuotes body) :
    SafeBetweenQuotes (Text.hexEscape u ++ body) := by
  have hu := u.toNat_lt
  have hdigit {n : Nat} (hn : n < 16) {rest : Text} (hrest : SafeBetweenQuotes rest) :
      SafeBetweenQuotes (hexDigit n :: rest) :=
    hrest.ascii (isPlain_hexDigit n hn) (hexDigit_lt n hn)
  have hdigits := hdigit (n := u.toNat / 0x1000) (by omega)
    (hdigit (n := u.toNat / 0x100 % 0x10) (by omega)
      (hdigit (n := u.toNat / 0x10 % 0x10) (by omega)
        (hdigit (n := u.toNat % 0x10) (by omega) h)))
  exact hdigits.escape (by decide) (by decide)

/-- What the letter of a short escape is. -/
theorem of_shortEscape? {u letter : UInt16} (h : shortEscape? u = some letter) :
    0x20 ≤ letter ∧ letter < 0x80 ∧ letter ≠ 0x75 ∧ unitOfLetter? letter = some u := by
  unfold shortEscape? at h
  split_ifs at h <;> cases h <;> subst_vars <;> decide

theorem EscapedAs.safe {t body : Text} (h : EscapedAs t body) : SafeBetweenQuotes body := by
  induction h with
  | nil => exact ⟨.nil, nofun, rfl⟩
  | plain hplain hhigh hlow _ ih =>
      refine ⟨.unit hhigh hlow ih.wellFormed, ?_, ?_⟩
      · exact List.forall_mem_cons.mpr ⟨((isPlain_iff _).mp hplain).1, ih.noControl⟩
      · rw [quotesEscaped_plain hplain]
        exact ih.quotes
  | pair hhigh hlow _ ih =>
      have hfirst := isPlain_of_isHighSurrogate hhigh
      have hsecond := isPlain_of_isLowSurrogate hlow
      refine ⟨.pair hhigh hlow ih.wellFormed, ?_, ?_⟩
      · exact List.forall_mem_cons.mpr ⟨((isPlain_iff _).mp hfirst).1,
          List.forall_mem_cons.mpr ⟨((isPlain_iff _).mp hsecond).1, ih.noControl⟩⟩
      · rw [quotesEscaped_plain hfirst, quotesEscaped_plain hsecond]
        exact ih.quotes
  | short hshort _ ih =>
      obtain ⟨hle, hlt, -, -⟩ := of_shortEscape? hshort
      exact ih.escape hle hlt
  | hex u _ ih => exact ih.hexEscape u

/-! ## Reading back -/

theorem unescaped?_plain {u : UInt16} (hplain : isPlain u = true) (rest : Text) :
    unescaped? (u :: rest) = (unescaped? rest).map (u :: ·) := by
  obtain ⟨hle, hquote, hbackslash⟩ := (isPlain_iff u).mp hplain
  have hcontrol : ¬ u < 0x20 := UInt16.not_lt.mpr hle
  cases rest with
  | nil => simp [unescaped?, hquote]
  | cons v rest =>
      rw [unescaped?.eq_def]
      simp [hquote, hbackslash, hcontrol]

theorem unescaped?_short {u letter : UInt16} (hshort : shortEscape? u = some letter)
    (rest : Text) :
    unescaped? (backslash :: letter :: rest) = (unescaped? rest).map (u :: ·) := by
  obtain ⟨-, -, hu, hletter⟩ := of_shortEscape? hshort
  have hopens : ¬(backslash = quoteMark ∨ backslash < 0x20) := by decide
  rw [unescaped?.eq_def]
  simp [hopens, hu, hletter]

theorem unescaped?_hex (u : UInt16) (rest : Text) :
    unescaped? (hexEscape u ++ rest) = (unescaped? rest).map (u :: ·) := by
  have hopens : ¬(backslash = quoteMark ∨ backslash < 0x20) := by decide
  rw [unescaped?.eq_def]
  simp [hexEscape, hopens, hexUnit?_hexDigits]

theorem EscapedAs.unescaped? {t body : Text} (h : EscapedAs t body) :
    Text.unescaped? (body ++ [quoteMark]) = some t := by
  induction h with
  | nil => rfl
  | plain hplain _ _ _ ih => rw [List.cons_append, unescaped?_plain hplain, ih, Option.map_some]
  | pair hhigh hlow _ ih =>
      rw [List.cons_append, List.cons_append, unescaped?_plain (isPlain_of_isHighSurrogate hhigh),
        unescaped?_plain (isPlain_of_isLowSurrogate hlow), ih, Option.map_some, Option.map_some]
  | short hshort _ ih =>
      rw [List.cons_append, List.cons_append, unescaped?_short hshort, ih, Option.map_some]
  | hex u _ ih => rw [List.append_assoc, unescaped?_hex, ih, Option.map_some]

theorem unquoted?_quoted (t : Text) : unquoted? (quoted t) = some t := by
  show unescaped? (escaped t ++ [quoteMark]) = some t
  exact (escapedAs_escaped t).unescaped?

/-- A well-formed text that writes `t` between double quotes, from which `t` is read back. -/
structure Quotes (written t : Text) : Prop where
  delimited : ∃ body, written = quoteMark :: (body ++ [quoteMark]) ∧ SafeBetweenQuotes body
  wellFormed : WellFormed written
  readBack : unquoted? written = some t

/-- **Every text is quoted, whatever surrogates stand alone in it.** -/
theorem quotes_quoted (t : Text) : Quotes (quoted t) t where
  delimited := ⟨escaped t, rfl, (escapedAs_escaped t).safe⟩
  wellFormed := by
    have hclosed : WellFormed (escaped t ++ [quoteMark]) :=
      (escapedAs_escaped t).safe.wellFormed.append (.ascii (by decide) .nil)
    exact hclosed.ascii (by decide)
  readBack := unquoted?_quoted t

theorem Quotes.unique {written s t : Text} (hs : Quotes written s) (ht : Quotes written t) :
    s = t := by
  have hread := hs.readBack
  rw [ht.readBack] at hread
  exact (Option.some.inj hread).symm

end Arrange.Text
