import Arrange.Catalog
import Arrange.Comparator.Elementary
import Arrange.Comparator.Pinyin
import Arrange.Comparator.Reference
import Arrange.Proofs.Comparator.Lawful

/-!
# Leaves that are always lawful

The comparators of the natural order are lawful on each kind of values, the order of a reference
sequence is lawful however the equality of the keys behaves as long as it does not fail, and the
comparator of a collation is lawful when the collation is. With the expressions over lawful leaves
this makes `Comparator.expressions_and_leaves_lawful`.
-/

set_option autoImplicit false

namespace Arrange

open Std

variable {ω : Type}

/-! ## The natural order -/

namespace Comparator

variable {m : Type → Type} [Monad m] [MonadExceptOf (Fault ω) m] [Objects ω]

theorem natural_answersBy (kind : OrderedKind) :
    (natural : Comparator m ω).AnswersBy kind.sign kind.members := by
  intro a ha b hb
  obtain ⟨x, hx, hsign⟩ := Value.exists_ofOrdering (ω := ω) (kind.sign a b)
  refine ⟨x, ?_, hsign⟩
  show MonadExcept.ofExcept (compareNatural a b) = _
  rw [compareNatural_of_members ha hb, hx]
  rfl

theorem natural_lawfulOn (kind : OrderedKind) :
    (natural : Comparator m ω).LawfulOn kind.members :=
  ⟨kind.sign, kind.isOrderOn_members, natural_answersBy kind⟩

end Comparator

/-! ## The order of a reference sequence -/

/-- An equality that accepts or refuses every entry finds a position or none. -/
theorem ReferenceOrder.exists_scan {accepts : Value ω → Except (Fault ω) (Value ω)}
    {entries : List (Value ω)} (h : ∀ w ∈ entries, ∃ r, accepts w = .ok r) (index : Nat) :
    ∃ p, scan accepts index entries = .ok p := by
  induction entries generalizing index with
  | nil => exact ⟨none, rfl⟩
  | cons w rest ih =>
      obtain ⟨r, hr⟩ := h w List.mem_cons_self
      rw [scan, hr]
      by_cases htrue : r.truthy = true
      · exact ⟨some index, if_pos htrue⟩
      · obtain ⟨p, hp⟩ := ih (fun w' hw' => h w' (List.mem_cons_of_mem w hw')) (index + 1)
        exact ⟨p, (if_neg htrue).trans hp⟩

namespace ReferenceOrder

variable [DecidableEq ω] [Objects ω]

/-- The key's own equality, if it has one, does not fail on the entries of a sequence. -/
def EqualityAnswers (key : Value ω) (entries : List (Value ω)) : Prop :=
  ∀ accepts, key.ownEquality? = some accepts → ∀ w ∈ entries, ∃ r, accepts w = .ok r

theorem exists_position {r : ReferenceOrder ω} {key : Value ω} (h : EqualityAnswers key r.keys) :
    ∃ p, r.position? key = .ok p := by
  rw [position?]
  cases hown : key.ownEquality? with
  | none => exact ⟨_, rfl⟩
  | some accepts => exact exists_scan (h accepts hown) 0

theorem exists_rank {r : ReferenceOrder ω} {key : Value ω} (h : EqualityAnswers key r.keys) :
    ∃ i, r.rank key = .ok i := by
  obtain ⟨p, hp⟩ := exists_position h
  rw [rank, hp]
  cases p with
  | some i => exact ⟨i, rfl⟩
  | none => exact ⟨_, rfl⟩

theorem compareKeys_of_rank {r : ReferenceOrder ω} {a b : Value ω} {i j : Int}
    (ha : r.rank a = .ok i) (hb : r.rank b = .ok j) :
    r.compareKeys a b = .ok (.ofOrdering (compare i j)) := by
  rw [compareKeys, ha, hb]
  rfl

/-- The rank of a key as a number, 0 where the key's equality fails. -/
def rankOf (r : ReferenceOrder ω) (key : Value ω) : Int := (r.rank key).toOption.getD 0

theorem comparator_answersBy {m : Type → Type} [Monad m] [MonadExceptOf (Fault ω) m]
    {r : ReferenceOrder ω} {D : Set (Value ω)} (h : ∀ key ∈ D, EqualityAnswers key r.keys) :
    (r.comparator : Comparator m ω).AnswersBy (fun a b => compare (r.rankOf a) (r.rankOf b)) D := by
  intro a ha b hb
  obtain ⟨i, hi⟩ := exists_rank (h a ha)
  obtain ⟨j, hj⟩ := exists_rank (h b hb)
  obtain ⟨x, hx, hsign⟩ := Value.exists_ofOrdering (ω := ω) (compare i j)
  refine ⟨x, ?_, ?_⟩
  · show MonadExcept.ofExcept (r.compareKeys a b) = _
    rw [compareKeys_of_rank hi hj, hx]
    rfl
  · show Number.HasSign x (compare ((r.rank a).toOption.getD 0) ((r.rank b).toOption.getD 0))
    rw [hi, hj]
    exact hsign

theorem isOrderOn_rankOf (r : ReferenceOrder ω) (D : Set (Value ω)) :
    IsOrderOn (fun a b => compare (r.rankOf a) (r.rankOf b)) D := by
  have hcompare : TransCmp (compare : Int → Int → Ordering) := inferInstance
  exact (IsOrderOn.of_transCmp hcompare Set.univ).comap r.rankOf fun _ _ => trivial

/-- Keys are ordered by their ranks, whatever relation their equality is. -/
theorem comparator_lawfulOn {m : Type → Type} [Monad m] [MonadExceptOf (Fault ω) m]
    {r : ReferenceOrder ω} {D : Set (Value ω)} (h : ∀ key ∈ D, EqualityAnswers key r.keys) :
    (r.comparator : Comparator m ω).LawfulOn D :=
  ⟨_, isOrderOn_rankOf r D, comparator_answersBy h⟩

end ReferenceOrder

theorem byReference_eq {m : Type → Type} [Monad m] [MonadExceptOf (Fault ω) m] [DecidableEq ω]
    [Objects ω] (key : Key m ω) (atEnd? : Option Bool) (reference : List (Value ω)) :
    byReference (.function key) (atEnd?.map .bool) (some reference)
      = .ok (Comparator.onKey key
          (ReferenceOrder.make (.bool (atEnd?.getD false)) reference).comparator) := by
  cases atEnd? <;> rfl

/-! ## Collations -/

/-- A collation is lawful when it never gives NaN and its signs order all texts. -/
def Collation.Lawful (collate : Collation) : Prop :=
  ∃ sign, IsOrderOn sign Set.univ ∧ ∀ s t, Number.HasSign (collate s t) (sign s t)

theorem Number.hasSign_sign {x : Float} {o : Ordering} (h : HasSign x o) :
    HasSign (Number.sign x) o := by
  unfold HasSign at h
  have hneg : relate (-1) 0 = some .lt := by decide
  have hpos : relate 1 0 = some .gt := by decide
  by_cases hlt : x < 0
  · rw [relate, if_pos hlt] at h
    rw [HasSign, Number.sign, if_pos hlt, hneg, h]
  · by_cases hgt : 0 < x
    · rw [relate, if_neg hlt, if_pos hgt] at h
      rw [HasSign, Number.sign, if_neg hlt, if_pos hgt, hpos, h]
    · rw [HasSign, Number.sign, if_neg hlt, if_neg hgt, h]

namespace Comparator

variable {m : Type → Type} [Monad m] [MonadExceptOf (Fault ω) m] [Objects ω]

theorem signedCollation_eq [LawfulMonad m] {collate : Collation} {a b : Value ω} {s t : Text}
    (ha : a.spelledWithin = .ok s) (hb : b.spelledWithin = .ok t) :
    (signedCollation collate : Comparator m ω) a b
      = pure (.number (Number.sign (collate s t))) := by
  unfold signedCollation
  rw [ha, hb]
  show (pure s >>= fun s => pure t >>= fun t => pure (Value.number (Number.sign (collate s t)))) = _
  rw [pure_bind, pure_bind]

/-- The comparator of a collation is that of its signs with absent texts first. -/
theorem collated_eq (collate : Collation) :
    (collated collate : Comparator m ω) = (signedCollation collate).withAbsent false := by
  funext a b
  unfold collated withAbsent absentOrder?
  cases a.isAbsent <;> cases b.isAbsent <;> rfl

theorem collated_lawfulOn [LawfulMonad m] {collate : Collation} (hcollate : collate.Lawful)
    {D : Set (Value ω)} (h : ∀ v ∈ D, v.isAbsent = true ∨ ∃ t, v.spelledWithin = .ok t) :
    (collated collate : Comparator m ω).LawfulOn D := by
  obtain ⟨sign, horder, hsign⟩ := hcollate
  rw [collated_eq]
  apply LawfulOn.withAbsent
  -- the texts of present values, of which there is one by `h`
  let text : Value ω → Text := fun v => v.spelledWithin.toOption.getD []
  refine ⟨fun a b => sign (text a) (text b), horder.comap text fun _ _ => trivial, ?_⟩
  have htext : ∀ v ∈ {v ∈ D | v.isAbsent = false}, v.spelledWithin = .ok (text v) := by
    rintro v ⟨hv, hpresent⟩
    rcases h v hv with habsent | ⟨t, ht⟩
    · rw [hpresent] at habsent
      cases habsent
    · show v.spelledWithin = .ok (v.spelledWithin.toOption.getD [])
      rw [ht]
      rfl
  intro a ha b hb
  exact ⟨_, signedCollation_eq (htext a ha) (htext b hb),
    Number.hasSign_sign (hsign (text a) (text b))⟩

end Comparator

/-! ## The romanization -/

namespace Pinyin

/-- Of texts of one length the case is compared place by place. -/
theorem compareCase_eq {s t : Text} (h : s.length = t.length) :
    compareCase s t = List.compareLex compare (s.map isUpper) (t.map isUpper) := by
  induction s generalizing t with
  | nil =>
      rw [List.eq_nil_of_length_eq_zero h.symm]
      rfl
  | cons u us ih =>
      cases t with
      | nil => cases h
      | cons v vs =>
          rw [List.map_cons, List.map_cons, List.compareLex_cons_cons, ← ih (Nat.succ.inj h),
            compareCase]
          cases isUpper u <;> cases isUpper v <;> rfl

/-- The order goes by the ranks and then by the case. -/
theorem order_eq :
    order = compareLex (compareOn ranks) (compareOn fun t : Text => t.map isUpper) := by
  funext s t
  show (compare (ranks s) (ranks t)).then (compareCase s t)
    = (compare (ranks s) (ranks t)).then (compare (s.map isUpper) (t.map isUpper))
  cases hranks : compare (ranks s) (ranks t) with
  | lt => rfl
  | gt => rfl
  | eq =>
      -- only texts of equal ranks come to the case, and these are of one length
      have heq : ranks s = ranks t := LawfulEqCmp.eq_of_compare hranks
      have hlength : s.length = t.length := by
        have h := congrArg List.length heq
        simpa only [ranks, List.length_map] using h
      rw [compareCase_eq hlength]
      rfl

instance : TransCmp order := by
  rw [order_eq]
  infer_instance

theorem collate_lawful : Collation.Lawful collate := by
  refine ⟨order, IsOrderOn.of_transCmp inferInstance Set.univ, fun s t => ?_⟩
  unfold collate Number.HasSign
  cases order s t <;> decide

end Pinyin

theorem byCollation_eq {m : Type → Type} [Monad m] [MonadExceptOf (Fault ω) m] [Objects ω]
    (collate : Collation) (key : Key m ω) (reversed : Bool) :
    byCollation collate (.function key) reversed
      = .ok (if reversed then (Comparator.onKey key (Comparator.collated collate)).reverse
          else Comparator.onKey key (Comparator.collated collate)) := rfl

/-! ## Expressions and leaves -/

/-- An expression is lawful wherever its leaves are. Lawful leaves are the natural order and its
reverse on each kind of values, and, for keys that are extracted without failing, the comparator of
any reference sequence, whatever relation the equalities of the keys are as long as they do not
fail on its entries, and that of any lawful collation in either direction. -/
theorem Comparator.expressions_and_leaves_lawful {m : Type → Type} [Monad m] [LawfulMonad m]
    [MonadExceptOf (Fault ω) m] [DecidableEq ω] [Objects ω] :
    (∀ (e : Expression m ω) (D : Set (Value ω)), e.LeavesLawfulOn D → e.comparator.LawfulOn D) ∧
    (∀ kind : OrderedKind, (natural : Comparator m ω).LawfulOn kind.members ∧
      (reversedNatural : Comparator m ω).LawfulOn kind.members) ∧
    ∀ (D : Set (Value ω)) (key : Key m ω) (k : Value ω → Value ω), (∀ v ∈ D, key v = pure (k v)) →
      (∀ (atEnd? : Option Bool) (reference : List (Value ω)),
        (∀ v ∈ D, ReferenceOrder.EqualityAnswers (k v) reference) →
        ∃ c, byReference (.function key) (atEnd?.map .bool) (some reference) = .ok c ∧
          c.LawfulOn D) ∧
      ∀ (collate : Collation) (reversed : Bool), collate.Lawful →
        (∀ v ∈ D, (k v).isAbsent = true ∨ ∃ t, (k v).spelledWithin = .ok t) →
        ∃ c, byCollation collate (.function key) reversed = .ok c ∧ c.LawfulOn D := by
  refine ⟨Expression.lawfulOn_of_leaves,
    fun kind => ⟨natural_lawfulOn kind, (natural_lawfulOn kind).reverse⟩, ?_⟩
  intro D key k hkey
  constructor
  · intro atEnd? reference hequality
    refine ⟨_, byReference_eq key atEnd? reference, LawfulOn.onKey hkey ?_⟩
    apply ReferenceOrder.comparator_lawfulOn
    rintro _ ⟨v, hv, rfl⟩
    exact hequality v hv
  · intro collate reversed hcollate htext
    have hforward : (Comparator.onKey key (collated collate)).LawfulOn D := by
      apply LawfulOn.onKey hkey
      apply collated_lawfulOn hcollate
      rintro _ ⟨v, hv, rfl⟩
      exact htext v hv
    refine ⟨_, byCollation_eq collate key reversed, ?_⟩
    cases reversed with
    | true => exact hforward.reverse
    | false => exact hforward

/-- The numbers with the absent values, first by an expression, then by keys of which the present
one has an equality that does not even accept itself. -/
theorem Comparator.expressions_and_leaves_lawful_on_nullable_numbers :
    let catalog : Catalog :=
      #[⟨none, .record, [], none, none, some (.isOneOf ["a"]), none, some (.returns (.text "a"))⟩]
    let _ : Objects Item := catalog.objects
    let D : Set (Value Item) := {v | v.isAbsent = true ∨ v ∈ OrderedKind.number.members}
    let k : Value Item → Value Item := fun v => if v.isAbsent then v else .object ⟨0⟩
    let key : Key (Hashing Item) Item := fun v => pure (k v)
    let e : Expression (Hashing Item) Item :=
      .inTurn (.absentLast (.leaf natural))
        [.onKey Key.identity (.absentFirst (.reverse (.leaf natural)))]
    e.LeavesLawfulOn D ∧ e.comparator.LawfulOn D ∧
      (natural : Comparator (Hashing Item) Item).LawfulOn OrderedKind.date.members ∧
      (∀ v ∈ D, key v = pure (k v)) ∧
      (∀ v ∈ D, ReferenceOrder.EqualityAnswers (k v) [.object ⟨0⟩, .null]) ∧
      (∃ c, byReference (.function key) (some (.bool true)) (some [.object ⟨0⟩, .null]) = .ok c ∧
        c.LawfulOn D) ∧
      Collation.Lawful Pinyin.collate ∧
      (∀ v ∈ D, (k v).isAbsent = true ∨ ∃ t, (k v).spelledWithin = .ok t) ∧
      ∃ c, byCollation Pinyin.collate (.function key) true = .ok c ∧ c.LawfulOn D := by
  intro catalog _ D k key e
  obtain ⟨hexpression, hnatural, hkeyed⟩ :=
    @Comparator.expressions_and_leaves_lawful Item (Hashing Item) _ _ _ _ _
  have hnumbers : (natural : Comparator (Hashing Item) Item).LawfulOn
      {v ∈ D | v.isAbsent = false} := by
    apply (hnatural .number).1.mono
    rintro v ⟨habsent | hnumber, hpresent⟩
    · rw [hpresent] at habsent
      cases habsent
    · exact hnumber
  have hleaves : e.LeavesLawfulOn D := by
    refine ⟨hnumbers, ⟨id, fun v _ => rfl, ?_⟩, trivial⟩
    show (natural : Comparator (Hashing Item) Item).LawfulOn {v ∈ id '' D | v.isAbsent = false}
    rw [Set.image_id]
    exact hnumbers
  have hkey : ∀ v ∈ D, key v = pure (k v) := fun v _ => rfl
  have hkinds : ∀ v, k v = .undefined ∨ k v = .null ∨ k v = .object ⟨0⟩ := by
    intro v
    cases v with
    | undefined => exact Or.inl rfl
    | null => exact Or.inr (Or.inl rfl)
    | _ => exact Or.inr (Or.inr rfl)
  have hequality : ∀ v ∈ D, ReferenceOrder.EqualityAnswers (k v) [.object ⟨0⟩, .null] := by
    intro v _ accepts haccepts w hw
    rcases hkinds v with h | h | h <;> rw [h] at haccepts <;> cases haccepts
    rcases List.mem_cons.mp hw with rfl | hw
    · exact ⟨.bool false, rfl⟩
    · rw [List.mem_singleton.mp hw]
      exact ⟨.bool false, rfl⟩
  have htext : ∀ v ∈ D, (k v).isAbsent = true ∨ ∃ t, (k v).spelledWithin = .ok t := by
    intro v _
    rcases hkinds v with h | h | h <;> rw [h]
    · exact Or.inl rfl
    · exact Or.inl rfl
    · exact Or.inr ⟨Text.ofString "a", rfl⟩
  obtain ⟨hreference, hcollation⟩ := hkeyed D key k hkey
  exact ⟨hleaves, hexpression e D hleaves, (hnatural .date).1, hkey, hequality,
    hreference (some true) _ hequality, Pinyin.collate_lawful, htext,
    hcollation Pinyin.collate true Pinyin.collate_lawful htext⟩

end Arrange
