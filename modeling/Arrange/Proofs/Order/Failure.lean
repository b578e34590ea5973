import Arrange.Proofs.Order.Ground
import Arrange.Proofs.Order.Universal

/-!
# When the universal comparison fails

The universal comparison has no failure of its own. It never comes to the refusal of the natural
order, because it only compares naturally what has an order in common, and texts that values do not
have are replaced by tags. So it fails only where a method that it called did (`MethodFails`,
`compareUniversal_ends`), and gives a result where the methods answer (`MethodsAnswer`). Main
statement: `compareUniversal_gives_result`.
-/

set_option autoImplicit false

namespace Arrange

variable {ω : Type}

/-! ## Ends of a computation -/

namespace Hashing

variable {α β : Type} {P : Fault ω → Prop}

/-- From whatever table it starts, a computation gives a result in `Q` or fails by a fault in
`P`. -/
def Ends (Q : α → Prop) (P : Fault ω → Prop) (x : Hashing ω α) : Prop :=
  ∀ t, match (x.exec t).1 with
    | .ok v => Q v
    | .error fault => P fault

theorem Ends.of_pure {Q : α → Prop} {v : α} (h : Q v) : (pure v : Hashing ω α).Ends Q P :=
  fun _ => h

theorem Ends.of_ofExcept {Q : α → Prop} {x : Except (Fault ω) α} (hok : ∀ v, x = .ok v → Q v)
    (herror : ∀ fault, x = .error fault → P fault) :
    (MonadExcept.ofExcept x : Hashing ω α).Ends Q P := by
  intro t
  rw [exec_ofExcept]
  cases x with
  | ok v => exact hok v rfl
  | error fault => exact herror fault rfl

theorem Ends.bind {R : α → Prop} {Q : β → Prop} {x : Hashing ω α} {f : α → Hashing ω β}
    (hx : x.Ends R P) (hf : ∀ v, R v → (f v).Ends Q P) : (x >>= f).Ends Q P := by
  intro t
  have hend := hx t
  rw [exec_bind]
  cases h : x.exec t with
  | mk r t' =>
      rw [h] at hend
      cases r with
      | ok v => exact hf v hend t'
      | error fault => exact hend

theorem Ends.mono {Q : α → Prop} {P' : Fault ω → Prop} {x : Hashing ω α} (hx : x.Ends Q P)
    (h : ∀ fault, P fault → P' fault) : x.Ends Q P' := by
  intro t
  have hend := hx t
  cases hr : (x.exec t).1 with
  | ok v =>
      rw [hr] at hend
      exact hend
  | error fault =>
      rw [hr] at hend
      exact h fault hend

/-- A computation that cannot fail gives a result. -/
theorem Ends.exists_exec {Q : α → Prop} {x : Hashing ω α} (h : x.Ends Q P)
    (hnone : ∀ fault, ¬P fault) (t : IdentityTable ω) : ∃ v t', x.exec t = (.ok v, t') ∧ Q v := by
  have hend := h t
  cases hexec : x.exec t with
  | mk r t' =>
      rw [hexec] at hend
      cases r with
      | ok v => exact ⟨v, t', rfl, hend⟩
      | error fault => exact absurd hend (hnone fault)

end Hashing

/-! ## Methods that fail or answer -/

variable [Objects ω]

/-- A fault of a method that comparing two values calls: of the order of the first value, of the
equality of either one, or of the hash code of either one, which must give something that has a
number. -/
inductive MethodFails (a b : Value ω) (fault : Fault ω) : Prop
  | order {compareTo : Value ω → Except (Fault ω) (Value ω)} (hown : a.ownOrder? = some compareTo)
      (h : compareTo b = .error fault)
  | equality {v w : Value ω} (hpair : v = a ∧ w = b ∨ v = b ∧ w = a)
      {equals : Value ω → Except (Fault ω) (Value ω)} (hown : v.ownEquality? = some equals)
      (h : equals w = .error fault)
  | hash {v : Value ω} (hone : v = a ∨ v = b) {code : Except (Fault ω) (Value ω)}
      (hown : v.ownHash? = some code) (h : code.bind Value.toNumber = .error fault)

/-- The methods that comparing two values calls give answers: the order of the first value and the
equalities of both do not fail, and the hash codes of both are numbers. -/
structure MethodsAnswer (a b : Value ω) : Prop where
  order : ∀ compareTo, a.ownOrder? = some compareTo → ∃ r, compareTo b = .ok r
  equality : ∀ v w, (v = a ∧ w = b ∨ v = b ∧ w = a) →
    ∀ equals, v.ownEquality? = some equals → ∃ r, equals w = .ok r
  hash : ∀ v, (v = a ∨ v = b) →
    ∀ code, v.ownHash? = some code → ∃ x : Float, code = .ok (.number x)

theorem MethodsAnswer.not_methodFails {a b : Value ω} (h : MethodsAnswer a b) (fault : Fault ω) :
    ¬MethodFails a b fault := by
  intro hfails
  cases hfails with
  | order hown hfault =>
      obtain ⟨r, hr⟩ := h.order _ hown
      rw [hr] at hfault
      cases hfault
  | equality hpair hown hfault =>
      obtain ⟨r, hr⟩ := h.equality _ _ hpair _ hown
      rw [hr] at hfault
      cases hfault
  | hash hone hown hfault =>
      obtain ⟨x, rfl⟩ := h.hash _ hone _ hown
      cases hfault

/-! ## The steps of a comparison -/

/-- The results of comparing two values: the number for an outcome, or what the order that the
first value brings gives for the second. -/
def AnswersWith (a b r : Value ω) : Prop :=
  (∃ o, r = .ofOrdering o) ∨ ∃ compareTo, a.ownOrder? = some compareTo ∧ compareTo b = .ok r

section Steps

variable {a b : Value ω}

/-- Values with an order in common are not refused. -/
theorem compareNatural_ends (h : haveCommonOrder a b = true) :
    (∀ r, compareNatural a b = .ok r → AnswersWith a b r) ∧
      ∀ fault, compareNatural a b = .error fault → MethodFails a b fault := by
  obtain ⟨ground, hground⟩ := exists_ground a b
  rw [hground.compareNatural]
  cases ground with
  | content kind =>
      refine ⟨?_, nofun⟩
      rintro r ⟨⟩
      exact .inl ⟨_, rfl⟩
  | order compareTo =>
      exact ⟨fun r hr => .inr ⟨compareTo, hground.1, hr⟩, fun fault => .order hground.1⟩
  | nothing => exact absurd (haveCommonOrder_iff_areComparable.mp h).1 hground

theorem acceptsAsEqual_eq_error {fault : Fault ω} (h : acceptsAsEqual a b = .error fault) :
    ∃ equals, a.ownEquality? = some equals ∧ equals b = .error fault := by
  unfold acceptsAsEqual at h
  cases hown : a.ownEquality? with
  | none =>
      rw [hown] at h
      cases h
  | some equals =>
      rw [hown] at h
      refine ⟨equals, rfl, ?_⟩
      cases hequals : equals b with
      | ok r => simp [hequals, Except.map] at h
      | error fault' => simpa [hequals, Except.map] using h

theorem eitherAccepts_eq_error {fault : Fault ω} (h : eitherAccepts a b = .error fault) :
    MethodFails a b fault := by
  unfold eitherAccepts at h
  cases hfirst : acceptsAsEqual a b with
  | error fault' =>
      rw [hfirst] at h
      obtain ⟨equals, hown, hequals⟩ := acceptsAsEqual_eq_error hfirst
      cases h
      exact .equality (.inl ⟨rfl, rfl⟩) hown hequals
  | ok answer =>
      rw [hfirst] at h
      cases answer with
      | true => cases h
      | false =>
          obtain ⟨equals, hown, hequals⟩ := acceptsAsEqual_eq_error h
          exact .equality (.inr ⟨rfl, rfl⟩) hown hequals

end Steps

variable [DecidableEq ω]

/-- Hashing a value fails only where its own hash code does: a primitive has a text, whatever it is,
and any other value is hashed by identity. -/
theorem hashValue_ends (v : Value ω) : (hashValue v).Ends (fun _ => True) fun fault =>
    ∃ code, v.ownHash? = some code ∧ code.bind Value.toNumber = .error fault := by
  unfold hashValue
  cases v.ownHash? with
  | some code =>
      apply Hashing.Ends.bind (R := fun result => code = .ok result)
      · apply Hashing.Ends.of_ofExcept (fun _ => id)
        rintro fault rfl
        exact ⟨_, rfl, rfl⟩
      · rintro result rfl
        apply Hashing.Ends.bind (R := fun _ => True)
        · exact .of_ofExcept (fun _ _ => trivial) fun fault h => ⟨_, rfl, h⟩
        · exact fun x _ => .of_pure trivial
  | none =>
      by_cases hprimitive : v.isPrimitive = true
      · obtain ⟨code, hcode⟩ := exists_primitiveHash hprimitive
        simp only [if_pos hprimitive, hcode]
        exact .of_pure trivial
      · simp only [if_neg hprimitive]
        exact fun t => trivial

theorem compareHashed_ends (a b : Value ω) :
    (compareHashed a b).Ends (fun _ => True) (MethodFails a b) := by
  unfold compareHashed
  apply Hashing.Ends.bind (R := fun _ => True)
  · apply (hashValue_ends a).mono
    rintro fault ⟨code, hown, h⟩
    exact .hash (.inl rfl) hown h
  · intro h _
    apply Hashing.Ends.bind (R := fun _ => True)
    · apply (hashValue_ends b).mono
      rintro fault ⟨code, hown, h⟩
      exact .hash (.inr rfl) hown h
    · exact fun k _ => .of_pure trivial

/-! ## The comparison -/

/-- Comparing any two values gives a result, or fails by a fault of a method that it called. -/
theorem compareUniversal_ends (a b : Value ω) (absentLast : Bool) :
    (compareUniversal a b absentLast).Ends (AnswersWith a b) (MethodFails a b) := by
  unfold compareUniversal
  by_cases hab : a = b
  · rw [if_pos hab]
    exact .of_pure (.inl ⟨_, rfl⟩)
  · rw [if_neg hab]
    cases absentOrder? a b absentLast with
    | some o => exact .of_pure (.inl ⟨_, rfl⟩)
    | none =>
        by_cases hcommon : haveCommonOrder a b = true
        · simp only [if_pos hcommon]
          exact .of_ofExcept (compareNatural_ends hcommon).1 (compareNatural_ends hcommon).2
        · simp only [if_neg hcommon]
          apply Hashing.Ends.bind (R := fun _ => True)
          · exact .of_ofExcept (fun _ _ => trivial) fun fault => eitherAccepts_eq_error
          · intro answer _
            cases answer with
            | true => exact .of_pure (.inl ⟨_, rfl⟩)
            | false =>
                exact (compareHashed_ends a b).bind fun o _ => .of_pure (.inl ⟨o, rfl⟩)

/-- Where the methods of two values answer, comparing them gives a result under either flag and from
every table. Nothing is asked of their texts. -/
theorem compareUniversal_gives_result {a b : Value ω} (h : MethodsAnswer a b) (absentLast : Bool)
    (t : IdentityTable ω) :
    ∃ r t', (compareUniversal a b absentLast).exec t = (.ok r, t') ∧ AnswersWith a b r := by
  obtain ⟨r, t', hexec, hanswer⟩ :=
    (compareUniversal_ends a b absentLast).exists_exec h.not_methodFails t
  exact ⟨r, t', hexec, hanswer⟩

/-- An array that holds a symbol and an object without conversions, beside an object whose hash code
is 1 and whose conversion fails. Neither has a text, and both have one hash code, so that they
compare by their tags. -/
theorem compareUniversal_gives_result_for_values_without_text :
    let catalog : Catalog := #[.ofNature none .bare,
      ⟨none, .tagged (.number 1) (.text "one"), [], none, none, none, none,
        some (.raises "no text")⟩]
    let _ : Objects Item := catalog.objects
    let nested : Value Item := .array 1 [.array 0 [.symbol 0 "s"], .object ⟨0⟩]
    let tagged : Value Item := .object ⟨1⟩
    MethodsAnswer nested tagged ∧ (nested.Textless ∧ tagged.Textless) ∧
      ∃ t', (compareUniversal nested tagged false).exec ∅ = (.ok (.number (-1)), t') := by
  intro catalog _ nested tagged
  have hanswer : MethodsAnswer nested tagged := by
    refine ⟨nofun, ?_, ?_⟩
    · rintro v w (⟨rfl, rfl⟩ | ⟨rfl, rfl⟩) equals hown
      · cases hown
      · cases hown
    · rintro v (rfl | rfl) code hown
      · cases hown
      · cases hown
        exact ⟨1, rfl⟩
  have hnested : nested.Textless :=
    .array 1 (List.mem_cons_self ..) (.array 0 (List.mem_cons_self ..) (.symbol 0 _))
  have htagged : tagged.Textless := .object nofun
  obtain ⟨r, t', hexec, -⟩ := compareUniversal_gives_result hanswer false ∅
  refine ⟨hanswer, ⟨hnested, htagged⟩, t', ?_⟩
  have hr : ((compareUniversal nested tagged false).exec ∅).1 = .ok (.number (-1)) := rfl
  rw [hexec] at hr ⊢
  rw [show r = .number (-1) from Except.ok.inj hr]

end Arrange
