import Arrange.Value.Spelling
import Mathlib.Tactic

/-!
# How values stand in messages

Inside another text some values have no text (`Textless`): symbols, objects that no conversion makes
a text of, and arrays that hold such a value at whatever depth. Exactly these are the values whose
spelling fails (`spelledWithin_fails_iff`). In a message nothing fails: `StandsAs` says which text a
value has there, with the tag of the value where there is no other one, and `described` gives it
(`standsAs_iff`).
-/

set_option autoImplicit false

namespace Arrange.Value

variable {ω : Type} [Objects ω]

/-! ## Values without a text -/

/-- The values that have no text inside another text. -/
inductive Textless : Value ω → Prop
  | symbol (serial : Nat) (description : Text) : Textless (.symbol serial description)
  /-- The conversions of the object fail, give no primitive value, or give a symbol. -/
  | object {o : ω} (h : ∀ v, objectAsText o = .ok v → v.primitiveText? = none) :
      Textless (.object o)
  | array (serial : Nat) {elements : List (Value ω)} {v : Value ω} (hv : v ∈ elements)
      (h : Textless v) : Textless (.array serial elements)

theorem objectText_fails_iff (o : ω) : (∃ fault, objectText o = .error fault) ↔
    ∀ v, objectAsText o = .ok v → v.primitiveText? = none := by
  unfold objectText
  cases objectAsText o with
  | error fault => simp
  | ok v => cases h : v.primitiveText? <;> simp [h]

theorem textless_array_iff (serial : Nat) (elements : List (Value ω)) :
    (array serial elements).Textless ↔ ∃ v ∈ elements, v.Textless := by
  constructor
  · rintro ⟨⟩
    exact ⟨_, ‹_›, ‹_›⟩
  · rintro ⟨v, hv, h⟩
    exact .array serial hv h

theorem textless_object_iff (o : ω) :
    (object o).Textless ↔ ∀ v, objectAsText o = .ok v → v.primitiveText? = none := by
  constructor
  · rintro ⟨⟩
    assumption
  · exact .object

/-- Absent values have a text, also as elements of an array. -/
theorem not_textless_of_isAbsent {v : Value ω} (h : v.isAbsent = true) : ¬v.Textless := by
  rintro ⟨⟩ <;> cases h

mutual

/-- Spelling a value fails exactly where it has no text. -/
theorem spelledWithin_fails_iff (v : Value ω) :
    (∃ fault, v.spelledWithin = .error fault) ↔ v.Textless := by
  match v with
  | .undefined => exact iff_of_false nofun nofun
  | .null => exact iff_of_false nofun nofun
  | .bool _ => exact iff_of_false nofun nofun
  | .number _ => exact iff_of_false nofun nofun
  | .bigint _ => exact iff_of_false nofun nofun
  | .text _ => exact iff_of_false nofun nofun
  | .symbol serial description => exact iff_of_true ⟨_, rfl⟩ (.symbol serial description)
  | .array serial elements =>
      rw [textless_array_iff, ← elementTexts_fails_iff elements, spelledWithin]
      cases elementTexts elements <;> simp [Except.map]
  | .object o => rw [textless_object_iff, ← objectText_fails_iff, spelledWithin]

/-- Spelling elements fails exactly where one of them has no text. -/
theorem elementTexts_fails_iff (elements : List (Value ω)) :
    (∃ fault, elementTexts elements = .error fault) ↔ ∃ v ∈ elements, v.Textless := by
  match elements with
  | [] => exact iff_of_false nofun nofun
  | v :: rest =>
      have hfirst := spelledWithin_fails_iff v
      have hrest := elementTexts_fails_iff rest
      rw [List.exists_mem_cons_iff, ← hrest, elementTexts]
      cases habsent : v.isAbsent with
      | true =>
          simp only [not_textless_of_isAbsent habsent, false_or, if_true]
          cases elementTexts rest <;> simp [Except.map]
      | false =>
          rw [← hfirst, if_neg Bool.false_ne_true]
          cases spelledWithin v with
          | error fault => simp
          | ok t => cases elementTexts rest <;> simp [Except.map]

end

/-! ## Values in messages -/

/-- How a value stands in a message. -/
inductive StandsAs : Value ω → Text → Prop
  /-- A text is quoted. -/
  | text (t : Text) : StandsAs (.text t) t.quoted
  /-- A whole number of any size ends in `n`. -/
  | bigint (n : Int) : StandsAs (.bigint n) (Text.ofInt n ++ Text.ofString "n")
  /-- A symbol shows its description. -/
  | symbol (serial : Nat) (d : Text) :
      StandsAs (.symbol serial d) (Text.ofString "Symbol(" ++ d ++ Text.ofString ")")
  /-- Any other value is spelled. -/
  | spelled {v : Value ω} {t : Text} (htext : ∀ u, v ≠ .text u) (hwhole : ∀ n, v ≠ .bigint n)
      (h : v.spelledWithin = .ok t) : StandsAs v t
  /-- An array or an object that has no text shows its tag. -/
  | tagged {v : Value ω} (hprimitive : v.isPrimitive = false) (h : v.Textless) :
      StandsAs v v.tagText

theorem described_of_textless {v : Value ω} (hprimitive : v.isPrimitive = false)
    (h : v.Textless) : v.described = v.tagText := by
  obtain ⟨fault, hfault⟩ := (spelledWithin_fails_iff v).mpr h
  cases v with
  | array serial elements => simp only [described, spelledOrTag, spelled, hfault]
  | object o => simp only [described, spelledOrTag, spelled, hfault]
  | _ => cases hprimitive

theorem described_of_spelledWithin {v : Value ω} {t : Text} (htext : ∀ u, v ≠ .text u)
    (hwhole : ∀ n, v ≠ .bigint n) (h : v.spelledWithin = .ok t) : v.described = t := by
  cases v with
  | text u => exact absurd rfl (htext u)
  | bigint n => exact absurd rfl (hwhole n)
  | symbol serial d => cases h
  | _ => simp only [described, spelledOrTag, spelled, h]

/-- An array or an object stands as its description, whether it has a text or not. -/
theorem standsAs_described_of_not_primitive {v : Value ω} (hprimitive : v.isPrimitive = false) :
    v.StandsAs v.described := by
  cases h : v.spelledWithin with
  | error fault =>
      have htextless := (spelledWithin_fails_iff v).mp ⟨fault, h⟩
      rw [described_of_textless hprimitive htextless]
      exact .tagged hprimitive htextless
  | ok t =>
      have htext : ∀ u, v ≠ .text u := fun u hu => by cases hu; cases hprimitive
      have hwhole : ∀ n, v ≠ .bigint n := fun n hn => by cases hn; cases hprimitive
      rw [described_of_spelledWithin htext hwhole h]
      exact .spelled htext hwhole h

/-- In a message every value stands as one text, its description. -/
theorem standsAs_iff (v : Value ω) (t : Text) : v.StandsAs t ↔ t = v.described := by
  constructor
  · intro h
    cases h with
    | text => rfl
    | bigint => rfl
    | symbol => rfl
    | spelled htext hwhole h => exact (described_of_spelledWithin htext hwhole h).symm
    | tagged hprimitive h => exact (described_of_textless hprimitive h).symm
  · rintro rfl
    cases v with
    | text t => exact .text t
    | bigint n => exact .bigint n
    | symbol serial d => exact .symbol serial d
    | array => exact standsAs_described_of_not_primitive rfl
    | object => exact standsAs_described_of_not_primitive rfl
    | _ => exact .spelled nofun nofun rfl

end Arrange.Value
