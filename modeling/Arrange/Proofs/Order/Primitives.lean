import Arrange.Catalog
import Arrange.Proofs.Order.Identity
import Arrange.Proofs.Order.Universal
import Arrange.Proofs.Text.Hash

/-!
# Comparing any two primitives

A primitive is hashed through the name of its kind and its text. Primitives of different kinds may
have one text, and different texts may have one hash code, but both at once would give two names of
kinds one hash code, which they do not have (`kindName_eq_of_order`). So comparing two primitives,
symbols apart, gives a tie only for the same value.
-/

set_option autoImplicit false

namespace Arrange

open Std

variable {ω : Type}

/-- Whether a value is a symbol. -/
def Value.isSymbol : Value ω → Bool
  | .symbol _ _ => true
  | _ => false

variable [Objects ω]

/-! ## Primitives bring no methods -/

theorem isDate_of_isPrimitive {v : Value ω} (h : v.isPrimitive = true) : v.isDate = false := by
  cases v with
  | object => cases h
  | _ => rfl

theorem asNonFunction?_of_isPrimitive {v : Value ω} (h : v.isPrimitive = true) :
    v.asNonFunction? = none := by
  cases v with
  | object => cases h
  | _ => rfl

theorem bringsOrder_of_isPrimitive {v : Value ω} (h : v.isPrimitive = true) :
    bringsOrder v = false := by
  rw [bringsOrder, Value.ownOrder?, asNonFunction?_of_isPrimitive h]
  rfl

theorem ownEquality?_of_isPrimitive {v : Value ω} (h : v.isPrimitive = true) :
    v.ownEquality? = none := by
  rw [Value.ownEquality?, asNonFunction?_of_isPrimitive h]
  rfl

theorem ownHash?_of_isPrimitive {v : Value ω} (h : v.isPrimitive = true) : v.ownHash? = none := by
  rw [Value.ownHash?, asNonFunction?_of_isPrimitive h]
  rfl

theorem acceptsAsEqual_of_isPrimitive {a : Value ω} (b : Value ω) (h : a.isPrimitive = true) :
    acceptsAsEqual a b = .ok false := by
  rw [acceptsAsEqual, ownEquality?_of_isPrimitive h]

/-- Comparing primitives relies on no method. -/
theorem Obliging.of_isPrimitive (own : Value ω → Value ω → Ordering) {S : Set (Value ω)}
    (h : ∀ v ∈ S, v.isPrimitive = true) : Obliging own S := by
  apply Obliging.of_methodless
  intro v hv
  have horder : orderClass? v ≠ some .own := by
    rw [Ne, orderClass?_eq_own, bringsOrder_of_isPrimitive (h v hv)]
    exact fun hclass => Bool.false_ne_true hclass.2
  exact ⟨horder, ownEquality?_of_isPrimitive (h v hv), ownHash?_of_isPrimitive (h v hv)⟩

/-! ## One kind -/

/-- Primitives of one kind that has an order are the same if they tie. -/
theorem eq_of_naturalSign {own : Value ω → Value ω → Ordering} {a b : Value ω}
    (hkind : sameOrderedKind a b = true) (h : naturalSign own a b = .eq) : a = b := by
  cases a <;> cases b <;> cases hkind
  case bool.bool b c =>
      have htie : boolOrder b c = .eq := h
      rw [LawfulEqCmp.eq_of_compare htie]
  case number.number x y =>
      have htie : numberOrder x y = .eq := h
      rw [LawfulEqCmp.eq_of_compare htie]
  case bigint.bigint m n =>
      have htie : integerOrder m n = .eq := h
      rw [LawfulEqCmp.eq_of_compare htie]
  case text.text s t =>
      have htie : textOrder s t = .eq := h
      rw [LawfulEqCmp.eq_of_compare htie]

theorem haveCommonOrder_of_isPrimitive {a b : Value ω} (ha : a.isPrimitive = true)
    (hb : b.isPrimitive = true) : haveCommonOrder a b = sameOrderedKind a b := by
  rw [haveCommonOrder, isDate_of_isPrimitive ha, isDate_of_isPrimitive hb,
    bringsOrder_of_isPrimitive ha, bringsOrder_of_isPrimitive hb]
  rfl

/-! ## Different kinds -/

/-- The names of the kinds of present primitives. -/
def primitiveKindNames : List Text := ["boolean", "number", "bigint", "string", "symbol"]

theorem kindName_mem {v : Value ω} (h : v.isPrimitive = true) (hpresent : v.isAbsent = false) :
    v.kindName ∈ primitiveKindNames := by
  cases v with
  | undefined => cases hpresent
  | null => cases hpresent
  | array => cases h
  | object => cases h
  | _ => simp [Value.kindName, primitiveKindNames]

/-- The hash codes that the names of kinds begin tell these apart. -/
theorem eq_of_hash_kindName : ∀ k ∈ primitiveKindNames, ∀ l ∈ primitiveKindNames,
    Text.hash (k ++ Text.ofString ":") = Text.hash (l ++ Text.ofString ":") → k = l := by
  decide

theorem spelled_of_isPrimitive {v : Value ω} (h : v.isPrimitive = true) :
    v.spelled = .ok v.spelledOrTag := by
  cases v with
  | array => cases h
  | object => cases h
  | _ => rfl

/-- A primitive is hashed through the name of its kind and its text. -/
theorem fixedHash?_of_isPrimitive {v : Value ω} (h : v.isPrimitive = true) :
    v.fixedHash? = some (.ok (.code
      (Text.hash (v.kindName ++ Text.ofString ":" ++ v.spelledOrTag)))) := by
  rw [Value.fixedHash?, ownHash?_of_isPrimitive h]
  show (if v.isPrimitive then some ((primitiveHash v).map HashCode.code) else none) = _
  rw [if_pos h, primitiveHash, spelled_of_isPrimitive h]
  rfl

/-- Primitives whose kinds have one name are of one kind that has an order, or symbols. -/
theorem sameOrderedKind_of_kindName {a b : Value ω} (ha : a.isPrimitive = true)
    (hb : b.isPrimitive = true) (hpa : a.isAbsent = false) (hpb : b.isAbsent = false)
    (hsymbols : a.isSymbol = false ∨ b.isSymbol = false) (h : a.kindName = b.kindName) :
    sameOrderedKind a b = true := by
  cases a <;> cases b <;>
    simp_all [Value.isPrimitive, Value.isAbsent, Value.isSymbol, Value.kindName, sameOrderedKind]
  all_goals exact absurd h (by decide)

variable [DecidableEq ω]

theorem knows_of_isPrimitive {v : Value ω} (h : v.isPrimitive = true) (t : IdentityTable ω) :
    t.Knows v := by
  intro hfixed
  rw [fixedHash?_of_isPrimitive h] at hfixed
  cases hfixed

/-- Primitives that tie by hash code and by text are of one kind: the text is the same in what is
hashed, so that the names of the kinds make the difference. -/
theorem kindName_eq_of_order {a b : Value ω} (ha : a.isPrimitive = true) (hb : b.isPrimitive = true)
    (hpa : a.isAbsent = false) (hpb : b.isAbsent = false) {t : IdentityTable ω}
    (h : t.order a b = .eq) : a.kindName = b.kindName := by
  obtain ⟨hcode, htext⟩ := Ordering.then_eq_eq.mp h
  have hspelled : a.spelledOrTag = b.spelledOrTag := LawfulEqCmp.eq_of_compare htext
  have hhash : Text.hash (a.kindName ++ Text.ofString ":" ++ a.spelledOrTag)
      = Text.hash (b.kindName ++ Text.ofString ":" ++ b.spelledOrTag) := by
    have hint := LawfulEqCmp.eq_of_compare hcode
    rw [IdentityTable.code, IdentityTable.code, fixedHash?_of_isPrimitive ha,
      fixedHash?_of_isPrimitive hb] at hint
    exact Int32.toInt_inj.mp hint
  rw [hspelled, Text.hash_append_inj] at hhash
  exact eq_of_hash_kindName _ (kindName_mem ha hpa) _ (kindName_mem hb hpb) hhash

/-! ## Outcomes -/

section Outcomes

variable {own : Value ω → Value ω → Ordering} {absentLast : Bool} {t : IdentityTable ω}
  {a b : Value ω}

/-- The outcome for two present primitives, of which one is no symbol, is a tie only if they are
the same. -/
theorem sign_eq_eq_iff_of_isPrimitive (ha : a.isPrimitive = true) (hb : b.isPrimitive = true)
    (hpa : a.isAbsent = false) (hpb : b.isAbsent = false)
    (hsymbols : a.isSymbol = false ∨ b.isSymbol = false) :
    t.sign own absentLast a b = .eq ↔ a = b := by
  rw [sign_of_present hpa hpb, haveCommonOrder_of_isPrimitive ha hb]
  by_cases hab : a = b
  · simp [hab]
  · rw [if_neg hab]
    by_cases hkind : sameOrderedKind a b = true
    · rw [if_pos hkind]
      exact ⟨eq_of_naturalSign hkind, fun h => absurd h hab⟩
    · have haccepts : accepts a b = false := by
        rw [accepts, eitherAccepts_of_answers (acceptsAsEqual_of_isPrimitive b ha)
          (acceptsAsEqual_of_isPrimitive a hb)]
        rfl
      rw [if_neg hkind, haccepts, if_neg Bool.false_ne_true]
      constructor
      · intro htie
        have hname := kindName_eq_of_order ha hb hpa hpb htie
        exact absurd (sameOrderedKind_of_kindName ha hb hpa hpb hsymbols hname) hkind
      · exact fun h => absurd h hab

/-- **Comparing two present primitives gives a number and hashes nothing by identity.** Unless both
are symbols it is zero only for one and the same primitive, and so never beside a symbol. -/
theorem compareUniversal_ties_identical_primitives (a b : Value ω) (ha : a.isPrimitive = true)
    (hb : b.isPrimitive = true) (hpa : a.isAbsent = false) (hpb : b.isAbsent = false)
    (absentLast : Bool) (t : IdentityTable ω) :
    ∃ x : Float, (compareUniversal a b absentLast).exec t = (.ok (.number x), t) ∧
      (a.isSymbol = false → b.isSymbol = false → ((x == 0) = true ↔ a = b)) ∧
      (a.isSymbol ≠ b.isSymbol → ¬(x == 0) = true) := by
  have hobliging : Obliging (fun _ _ => .eq) {a, b} := by
    apply Obliging.of_isPrimitive
    rintro v (rfl | rfl) <;> assumption
  obtain ⟨x, hx, hsign⟩ := hobliging.compareUniversal_of_knows (Set.mem_insert a {b})
    (Set.mem_insert_of_mem a rfl) absentLast (knows_of_isPrimitive ha t) (knows_of_isPrimitive hb t)
  refine ⟨x, hx, fun hsa _ => ?_, fun hne => ?_⟩
  · rw [hsign.beq_zero_iff, sign_eq_eq_iff_of_isPrimitive ha hb hpa hpb (.inl hsa)]
  · have hsymbols : a.isSymbol = false ∨ b.isSymbol = false := by
      revert hne
      cases a.isSymbol <;> cases b.isSymbol <;> simp
    rw [hsign.beq_zero_iff, sign_eq_eq_iff_of_isPrimitive ha hb hpa hpb hsymbols]
    rintro rfl
    exact hne rfl

/-- The number 7, the whole number 7 and the text 7 have one text, and the number and the other text
have one hash code, but no two of them tie. -/
theorem compareUniversal_ties_identical_primitives_of_one_text_or_code :
    let _ : Objects Item := Catalog.featureless
    let number : Value Item := .number 7
    let whole : Value Item := .bigint 7
    let text : Value Item := .text "7"
    let other : Value Item := .text "dfsxrtx"
    let values := [number, whole, text, other]
    (∀ v ∈ values, v.isPrimitive = true ∧ v.isAbsent = false ∧ v.isSymbol = false) ∧
      (∀ v ∈ [number, whole, text], v.spelled = .ok "7") ∧
      primitiveHash number = primitiveHash other ∧
      ∀ a ∈ values, ∀ b ∈ values, ∃ x : Float,
        (compareUniversal a b false).exec ∅ = (.ok (.number x), ∅) ∧ ((x == 0) = true ↔ a = b) := by
  intro _ number whole text other values
  have hvalues : ∀ v ∈ values, v.isPrimitive = true ∧ v.isAbsent = false ∧ v.isSymbol = false := by
    decide
  have hseven : Number.spelled 7 = Text.ofString "7" := by decide +kernel
  have hcollision : Text.hash (Text.ofString "number" ++ Text.ofString ":" ++ Text.ofString "7")
      = Text.hash (Text.ofString "string" ++ Text.ofString ":" ++ Text.ofString "dfsxrtx") := by
    decide +kernel
  refine ⟨hvalues, ?_, ?_, fun a ha b hb => ?_⟩
  · intro v hv
    simp only [List.mem_cons, List.not_mem_nil, or_false] at hv
    rcases hv with rfl | rfl | rfl
    · exact congrArg Except.ok hseven
    · rfl
    · rfl
  · show Except.ok (Text.hash (Text.ofString "number" ++ Text.ofString ":" ++ Number.spelled 7)) = _
    rw [hseven, hcollision]
    rfl
  · obtain ⟨hprima, hpresa, hsyma⟩ := hvalues a ha
    obtain ⟨hprimb, hpresb, hsymb⟩ := hvalues b hb
    obtain ⟨x, hx, hties, -⟩ :=
      compareUniversal_ties_identical_primitives a b hprima hprimb hpresa hpresb false ∅
    exact ⟨x, hx, hties hsyma hsymb⟩

end Outcomes

end Arrange
