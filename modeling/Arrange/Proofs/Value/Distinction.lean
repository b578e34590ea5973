import Arrange.Catalog
import Arrange.Proofs.Text.Quoted
import Arrange.Value.Spelling

/-!
# Primitives told apart by their descriptions

The kind of a primitive can be read off its description (`kindOfDescription_described`). Its first
unit tells texts, symbols, truth values and absent values from one another and from numbers, and its
last unit tells whole numbers of any size, which end in `n`, from doubles. A text can be read off as
a whole, for it is quoted. Main statement: `described_gives_back_texts_and_kinds`.
-/

set_option autoImplicit false

namespace Arrange

/-! ## Numerals -/

/-- A unit of the text of a finite number: a digit, a point, a sign, or the mark of an exponent. -/
def isNumeral (u : UInt16) : Bool :=
  (0x30 ≤ u && u ≤ 0x39) || u == 0x2E || u == 0x65 || u == 0x2B || u == 0x2D

/-- A text of such units. -/
def IsNumeralText (t : Text) : Prop := ∀ u ∈ t, isNumeral u = true

instance (t : Text) : Decidable (IsNumeralText t) :=
  decidable_of_iff (t.all isNumeral = true) List.all_eq_true

theorem IsNumeralText.append {s t : Text} (hs : IsNumeralText s) (ht : IsNumeralText t) :
    IsNumeralText (s ++ t) :=
  List.forall_mem_append.mpr ⟨hs, ht⟩

theorem IsNumeralText.take {t : Text} (h : IsNumeralText t) (n : Nat) : IsNumeralText (t.take n) :=
  fun u hu => h u (List.mem_of_mem_take hu)

theorem IsNumeralText.drop {t : Text} (h : IsNumeralText t) (n : Nat) : IsNumeralText (t.drop n) :=
  fun u hu => h u (List.mem_of_mem_drop hu)

theorem isNumeral_digit : ∀ n < 0x3A, 0x30 ≤ n → isNumeral n.toUInt16 = true := by decide

theorem isNumeralText_ofNat (n : Nat) : IsNumeralText (Text.ofNat n) := by
  intro u hu
  obtain ⟨c, hc, hmem⟩ := List.mem_flatMap.mp hu
  have hdigit : 0x30 ≤ c.toNat ∧ c.toNat ≤ 0x39 := by
    have h := Nat.isDigit_of_mem_toDigits (by decide) (by decide) hc
    simpa [Char.isDigit, UInt32.le_iff_toNat_le] using h
  have hshort : c.toNat < 0x10000 := by omega
  rw [Text.ofChar, if_pos hshort, List.mem_singleton] at hmem
  rw [hmem]
  exact isNumeral_digit _ (by omega) hdigit.1

theorem ofNat_ne_nil (n : Nat) : Text.ofNat n ≠ [] := by
  intro h
  obtain ⟨c, hc⟩ := List.exists_mem_of_ne_nil _ (Nat.toDigits_ne_nil (b := 10) (n := n))
  have hchar : Text.ofChar c = [] := List.flatMap_eq_nil_iff.mp h c hc
  unfold Text.ofChar at hchar
  split at hchar <;> cases hchar

theorem isNumeralText_ofInt (n : Int) : IsNumeralText (Text.ofInt n) := by
  cases n with
  | ofNat n => exact isNumeralText_ofNat n
  | negSucc n => exact IsNumeralText.append (by decide) (isNumeralText_ofNat _)

theorem isNumeralText_zeros (n : Nat) : IsNumeralText (Decimal.zeros n) := by
  intro u hu
  rw [List.eq_of_mem_replicate hu]
  decide

theorem Decimal.isNumeralText_spelled (d : Decimal) : IsNumeralText d.spelled := by
  have hdigits := isNumeralText_ofNat d.digits
  have hpoint : IsNumeralText (Text.ofString ".") := by decide
  simp only [Decimal.spelled]
  split
  · exact hdigits.append (isNumeralText_zeros _)
  split
  · exact ((hdigits.take _).append hpoint).append (hdigits.drop _)
  split
  · have hzero : IsNumeralText (Text.ofString "0.") := by decide
    exact (hzero.append (isNumeralText_zeros _)).append hdigits
  · have hfraction : IsNumeralText (if (Text.ofNat d.digits).length = 1 then []
        else Text.ofString "." ++ (Text.ofNat d.digits).drop 1) := by
      split
      · decide
      · exact hpoint.append (hdigits.drop 1)
    have hmark : IsNumeralText (Text.ofString "e") := by decide
    have hsign (positive : Prop) [Decidable positive] :
        IsNumeralText (Text.ofString (if positive then "+" else "-")) := by
      split <;> decide
    exact ((((hdigits.take 1).append hfraction).append hmark).append (hsign _)).append
      (isNumeralText_ofNat _)

theorem Decimal.spelled_ne_nil (d : Decimal) : d.spelled ≠ [] := by
  have hdigits := ofNat_ne_nil d.digits
  have hpoint : Text.ofString "." ≠ [] := by decide
  have hmark : Text.ofString "e" ≠ [] := by decide
  simp only [Decimal.spelled]
  split
  · simp [hdigits]
  split
  · simp [hpoint]
  split
  · simp [hdigits]
  · simp [hmark]

/-! ## The ends of a number -/

/-- A unit that a number can begin with: one of a numeral, or the first letter of NaN or of
Infinity. -/
def opensNumber (u : UInt16) : Bool := isNumeral u || u == 0x4E || u == 0x49

/-- The text begins as a number does, and ends in `last`. -/
structure ReadsAsNumber (t : Text) (last : UInt16) : Prop where
  opens : ∃ first, t.head? = some first ∧ opensNumber first = true
  last_eq : t.getLast? = some last

theorem IsNumeralText.readsAsNumber {t : Text} (h : IsNumeralText t) (hne : t ≠ []) :
    ∃ last, isNumeral last = true ∧ ReadsAsNumber t last := by
  refine ⟨t.getLast hne, h _ (List.getLast_mem hne), ⟨t.head hne, List.head?_eq_some_head hne, ?_⟩,
    List.getLast?_eq_some_getLast hne⟩
  rw [opensNumber, h _ (List.head_mem hne)]
  rfl

/-- In front of a number a minus sign is part of it. -/
theorem ReadsAsNumber.negated {t : Text} {last : UInt16} (h : ReadsAsNumber t last) :
    ReadsAsNumber (Text.ofString "-" ++ t) last := by
  refine ⟨⟨0x2D, rfl, by decide⟩, ?_⟩
  rw [List.getLast?_append, h.last_eq]
  rfl

/-- No number ends in the letter that ends a whole number of any size. -/
theorem readsAsNumber_spelled (x : Float) :
    ∃ last, last ≠ 0x6E ∧ ReadsAsNumber (Number.spelled x) last := by
  have hmagnitude : ∃ last, last ≠ 0x6E ∧ ReadsAsNumber (Number.spelledMagnitude x) last := by
    have hnumeral {t : Text} (h : IsNumeralText t) (hne : t ≠ []) :
        ∃ last, last ≠ 0x6E ∧ ReadsAsNumber t last := by
      obtain ⟨last, hlast, hreads⟩ := h.readsAsNumber hne
      refine ⟨last, ?_, hreads⟩
      rintro rfl
      exact absurd hlast (by decide)
    simp only [Number.spelledMagnitude]
    split
    · exact ⟨0x4E, by decide, ⟨0x4E, rfl, by decide⟩, rfl⟩
    split
    · exact ⟨0x79, by decide, ⟨0x49, rfl, by decide⟩, rfl⟩
    split
    · exact hnumeral (by decide) (by decide)
    · exact hnumeral (Decimal.isNumeralText_spelled _) (Decimal.spelled_ne_nil _)
  obtain ⟨last, hlast, hreads⟩ := hmagnitude
  rw [Number.spelled]
  split
  · exact ⟨last, hlast, hreads.negated⟩
  · exact ⟨last, hlast, hreads⟩

theorem readsAsNumber_ofInt (n : Int) :
    ReadsAsNumber (Text.ofInt n ++ Text.ofString "n") 0x6E := by
  have hne : Text.ofInt n ≠ [] := by
    cases n with
    | ofNat n => exact ofNat_ne_nil n
    | negSucc n => simp [Text.ofInt, ofNat_ne_nil]
  obtain ⟨last, -, hreads⟩ := (isNumeralText_ofInt n).readsAsNumber hne
  obtain ⟨first, hfirst, hopens⟩ := hreads.opens
  refine ⟨⟨first, ?_, hopens⟩, ?_⟩
  · rw [List.head?_append, hfirst]
    rfl
  · rw [List.getLast?_append]
    rfl

namespace Value

variable {ω : Type} [Objects ω]

/-! ## Kinds -/

/-- The name of the kind of a primitive with this description. The name `object` is that of `null`,
and of no other primitive. -/
def kindOfDescription (t : Text) : Text :=
  if t.head? = some Text.quoteMark then "string"
  else if t.head? = some 0x53 then "symbol"
  else if t.head? = some 0x74 ∨ t.head? = some 0x66 then "boolean"
  else if t.head? = some 0x6E then "object"
  else if t.head? = some 0x75 then "undefined"
  else if t.getLast? = some 0x6E then "bigint"
  else "number"

theorem kindOfDescription_of_number {t : Text} {last : UInt16} (h : ReadsAsNumber t last) :
    kindOfDescription t = if last = 0x6E then ("bigint" : Text) else ("number" : Text) := by
  obtain ⟨first, hfirst, hopens⟩ := h.opens
  -- none of the other kinds begins so
  have hne (u : UInt16) (hu : opensNumber u = false) : first ≠ u := by
    rintro rfl
    rw [hu] at hopens
    cases hopens
  simp only [kindOfDescription, hfirst, h.last_eq, Option.some.injEq,
    hne Text.quoteMark (by decide), hne 0x53 (by decide), hne 0x74 (by decide),
    hne 0x66 (by decide), hne 0x6E (by decide), hne 0x75 (by decide), or_self, if_false]

/-- **The kind of a primitive can be read off its description.** -/
theorem kindOfDescription_described (v : Value ω) (h : v.isPrimitive = true) :
    kindOfDescription v.described = v.kindName := by
  cases v with
  | undefined => rfl
  | null => rfl
  | bool b => cases b <;> rfl
  | number x =>
      obtain ⟨last, hlast, hreads⟩ := readsAsNumber_spelled x
      exact (kindOfDescription_of_number hreads).trans (if_neg hlast)
  | bigint n => exact (kindOfDescription_of_number (readsAsNumber_ofInt n)).trans (if_pos rfl)
  | text t => rfl
  | symbol serial d => rfl
  | array => cases h
  | object => cases h

/-- **The description of a text quotes it, so that the text is read back, and primitives of
different kinds have different descriptions.** -/
theorem described_gives_back_texts_and_kinds :
    (∀ s : Text, Text.Quotes (described (.text s : Value ω)) s) ∧
    Function.Injective (fun s : Text => described (.text s : Value ω)) ∧
    ∀ a b : Value ω, a.isPrimitive = true → b.isPrimitive = true → a.kindName ≠ b.kindName →
      a.described ≠ b.described := by
  refine ⟨Text.quotes_quoted, ?_, ?_⟩
  · intro s t heq
    have hquoted : Text.quoted s = Text.quoted t := heq
    have hs := Text.quotes_quoted s
    rw [hquoted] at hs
    exact hs.unique (Text.quotes_quoted t)
  · intro a b ha hb hkind heq
    apply hkind
    rw [← kindOfDescription_described a ha, ← kindOfDescription_described b hb, heq]

/-- A double quote, a control, a high surrogate that stands alone and a surrogate pair; a number and
a whole number of the same digits; and a text that reads like the description of `null`. -/
theorem described_gives_back_texts_and_kinds_of_lookalikes :
    let _ : Objects Item := Catalog.featureless
    let s : Text := [0x22, 0x01, 0xD83D, 0xD83D, 0xDE00]
    let described : Value Item → Text := Value.described
    described (.text s) = [0x22, 0x5C, 0x22, 0x5C, 0x75, 0x30, 0x30, 0x30, 0x31, 0x5C, 0x75, 0x64,
      0x38, 0x33, 0x64, 0xD83D, 0xDE00, 0x22] ∧
    Text.Quotes (described (.text s)) s ∧
    (Value.number 1 : Value Item).kindName ≠ (Value.bigint 1 : Value Item).kindName ∧
    described (.number 1) ≠ described (.bigint 1) ∧
    (Value.null : Value Item).kindName ≠ (Value.text "null" : Value Item).kindName ∧
    described .null ≠ described (.text "null") := by
  intro _ s described
  have hone : (Value.number 1 : Value Item).kindName ≠ (Value.bigint 1 : Value Item).kindName := by
    decide
  have hnull : (Value.null : Value Item).kindName ≠ (Value.text "null" : Value Item).kindName := by
    decide
  obtain ⟨hquotes, -, hkinds⟩ := @described_gives_back_texts_and_kinds Item _
  exact ⟨rfl, hquotes s, hone, hkinds (.number 1) (.bigint 1) rfl rfl hone, hnull,
    hkinds .null (.text "null") rfl rfl hnull⟩

end Value

end Arrange
