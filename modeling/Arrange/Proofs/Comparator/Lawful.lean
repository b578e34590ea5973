import Arrange.Comparator.Expression
import Arrange.Proofs.Order.Kind

/-!
# Lawful comparators

A comparator is lawful on a domain when it gives for any two members, without failing and without
any other effect, a number that is not NaN, and the signs of these numbers order the domain. Each
way to make a comparator from others keeps this (`LawfulOn.reverse`, `LawfulOn.withAbsent`,
`LawfulOn.onKey`, `LawfulOn.inTurn`), and so does every expression built with them: it is lawful
when its leaves are, each on the values that reach it (`Expression.lawfulOn_of_leaves`).
-/

set_option autoImplicit false

namespace Arrange

variable {ω : Type}

namespace Comparator

variable {m : Type → Type} [Monad m]

/-! ## The laws -/

/-- On the members of `D` the comparator just gives a number of the given sign. -/
def AnswersBy (c : Comparator m ω) (sign : Value ω → Value ω → Ordering) (D : Set (Value ω)) :
    Prop :=
  ∀ a ∈ D, ∀ b ∈ D, ∃ x : Float, c a b = pure (.number x) ∧ Number.HasSign x (sign a b)

/-- On the members of `D` the comparator gives numbers, and their signs are an order. -/
def LawfulOn (c : Comparator m ω) (D : Set (Value ω)) : Prop :=
  ∃ sign, IsOrderOn sign D ∧ c.AnswersBy sign D

theorem AnswersBy.mono {c : Comparator m ω} {sign : Value ω → Value ω → Ordering}
    {D E : Set (Value ω)} (hc : c.AnswersBy sign D) (hE : E ⊆ D) : c.AnswersBy sign E :=
  fun a ha b hb => hc a (hE ha) b (hE hb)

theorem LawfulOn.mono {c : Comparator m ω} {D E : Set (Value ω)} (h : c.LawfulOn D)
    (hE : E ⊆ D) : c.LawfulOn E := by
  obtain ⟨sign, horder, hc⟩ := h
  exact ⟨sign, horder.mono hE, hc.mono hE⟩

/-! ## Combinators -/

theorem AnswersBy.reverse {c : Comparator m ω} {sign : Value ω → Value ω → Ordering}
    {D : Set (Value ω)} (hc : c.AnswersBy sign D) :
    c.reverse.AnswersBy (fun a b => sign b a) D := fun a ha b hb => hc b hb a ha

theorem LawfulOn.reverse {c : Comparator m ω} {D : Set (Value ω)} (h : c.LawfulOn D) :
    c.reverse.LawfulOn D := by
  obtain ⟨sign, horder, hc⟩ := h
  exact ⟨fun a b => sign b a, horder.reverse, hc.reverse⟩

/-- With absent values ranked the comparator is asked about the present ones only. -/
theorem AnswersBy.withAbsent {c : Comparator m ω} {sign : Value ω → Value ω → Ordering}
    {D : Set (Value ω)} (last : Bool) (hc : c.AnswersBy sign {v ∈ D | v.isAbsent = false}) :
    (c.withAbsent last).AnswersBy (fun a b => (absentOrder? a b last).getD (sign a b)) D := by
  intro a ha b hb
  show ∃ x : Float, c.withAbsent last a b = pure (.number x) ∧
    Number.HasSign x ((absentOrder? a b last).getD (sign a b))
  cases ho : absentOrder? a b last with
  | some o =>
      obtain ⟨x, hx, hsign⟩ := Value.exists_ofOrdering (ω := ω) o
      exact ⟨x, by simp only [Comparator.withAbsent, ho, hx], hsign⟩
  | none =>
      have hpresent := absentOrder?_eq_none_iff.mp ho
      obtain ⟨x, hx, hsign⟩ := hc a ⟨ha, hpresent.1⟩ b ⟨hb, hpresent.2⟩
      exact ⟨x, by simp only [Comparator.withAbsent, ho, hx], hsign⟩

/-- With absent values ranked it suffices to compare the present ones. -/
theorem LawfulOn.withAbsent {c : Comparator m ω} {D : Set (Value ω)} (last : Bool)
    (h : c.LawfulOn {v ∈ D | v.isAbsent = false}) : (c.withAbsent last).LawfulOn D := by
  obtain ⟨sign, horder, hc⟩ := h
  exact ⟨_, horder.withAbsent last, hc.withAbsent last⟩

section

variable [LawfulMonad m]

theorem onKey_eq {key : Key m ω} {c : Comparator m ω} {a b k l : Value ω}
    (ha : key a = pure k) (hb : key b = pure l) : onKey key c a b = c k l := by
  show (key a >>= fun k => key b >>= fun l => c k l) = c k l
  rw [ha, pure_bind, hb, pure_bind]

theorem AnswersBy.onKey {key : Key m ω} {c : Comparator m ω} {D : Set (Value ω)}
    {k : Value ω → Value ω} {sign : Value ω → Value ω → Ordering}
    (hkey : ∀ v ∈ D, key v = pure (k v)) (hc : c.AnswersBy sign (k '' D)) :
    (Comparator.onKey key c).AnswersBy (fun a b => sign (k a) (k b)) D := by
  intro a ha b hb
  rw [onKey_eq (hkey a ha) (hkey b hb)]
  exact hc (k a) (Set.mem_image_of_mem k ha) (k b) (Set.mem_image_of_mem k hb)

theorem LawfulOn.onKey {key : Key m ω} {c : Comparator m ω} {D : Set (Value ω)}
    {k : Value ω → Value ω} (hkey : ∀ v ∈ D, key v = pure (k v)) (h : c.LawfulOn (k '' D)) :
    (onKey key c).LawfulOn D := by
  obtain ⟨sign, horder, hc⟩ := h
  exact ⟨fun a b => sign (k a) (k b), horder.comap k fun v hv => Set.mem_image_of_mem k hv,
    hc.onKey hkey⟩

/-- Comparators asked in turn for the ties of a result: their answers break the ties by an order. -/
theorem breakTie_answers {D : Set (Value ω)} {rest : List (Comparator m ω)}
    (h : ∀ c ∈ rest, c.LawfulOn D) :
    ∃ sign, IsOrderOn sign D ∧ ∀ a ∈ D, ∀ b ∈ D, ∀ (x : Float) (o : Ordering), Number.HasSign x o →
      ∃ y : Float, breakTie (.number x) a b rest = pure (.number y) ∧
        Number.HasSign y (o.then (sign a b)) := by
  -- on the comparators still to be asked; `x` is the result so far
  induction rest with
  | nil =>
      refine ⟨fun _ _ => .eq, IsOrderOn.indifferent D, fun a _ b _ x o hx => ⟨x, rfl, ?_⟩⟩
      rw [Ordering.then_eq]
      exact hx
  | cons c rest ih =>
      obtain ⟨sign, horder, hc⟩ := h c List.mem_cons_self
      obtain ⟨others, hothers, hrest⟩ := ih fun d hd => h d (List.mem_cons_of_mem c hd)
      refine ⟨fun a b => (sign a b).then (others a b), horder.breakTies hothers, ?_⟩
      intro a ha b hb x o hx
      obtain ⟨y, hy, hsign⟩ := hc a ha b hb
      show ∃ z : Float, (if x == 0 then
        c a b >>= fun v => breakTie v a b rest else pure (.number x)) = pure (.number z) ∧ _
      by_cases ho : o = .eq
      · rw [if_pos (hx.beq_zero_iff.mpr ho), hy, pure_bind, ho]
        exact hrest a ha b hb y (sign a b) hsign
      · rw [if_neg fun hzero => ho (hx.beq_zero_iff.mp hzero)]
        refine ⟨x, rfl, ?_⟩
        -- a result that is no tie stays, whatever the others would say
        have hthen : o.then ((sign a b).then (others a b)) = o := by
          cases o with
          | eq => exact absurd rfl ho
          | lt => rfl
          | gt => rfl
        rw [hthen]
        exact hx

theorem LawfulOn.inTurn {first : Comparator m ω} {rest : List (Comparator m ω)}
    {D : Set (Value ω)} (hfirst : first.LawfulOn D) (hrest : ∀ c ∈ rest, c.LawfulOn D) :
    (inTurn first rest).LawfulOn D := by
  obtain ⟨sign, horder, hc⟩ := hfirst
  obtain ⟨others, hothers, hbreak⟩ := breakTie_answers hrest
  refine ⟨fun a b => (sign a b).then (others a b), horder.breakTies hothers, ?_⟩
  intro a ha b hb
  obtain ⟨x, hx, hsign⟩ := hc a ha b hb
  show ∃ y : Float, (first a b >>= fun v => breakTie v a b rest) = pure (.number y) ∧ _
  rw [hx, pure_bind]
  exact hbreak a ha b hb x (sign a b) hsign

end

end Comparator

/-! ## Expressions -/

namespace Expression

variable {m : Type → Type} [Monad m]

mutual

/-- Every leaf of an expression is lawful on the values that reach it when the expression compares
members of `D`: past a rank for absent values only the present ones, and past a key, which must not
fail, the keys. -/
def LeavesLawfulOn : Expression m ω → Set (Value ω) → Prop
  | leaf c, D => c.LawfulOn D
  | reverse e, D => e.LeavesLawfulOn D
  | absentFirst e, D => e.LeavesLawfulOn {v ∈ D | v.isAbsent = false}
  | absentLast e, D => e.LeavesLawfulOn {v ∈ D | v.isAbsent = false}
  | onKey key e, D =>
      ∃ k : Value ω → Value ω, (∀ v ∈ D, key v = pure (k v)) ∧ e.LeavesLawfulOn (k '' D)
  | inTurn first rest, D => first.LeavesLawfulOn D ∧ AllLeavesLawfulOn rest D

/-- Every leaf of every expression of a list is lawful on the values that reach it. -/
def AllLeavesLawfulOn : List (Expression m ω) → Set (Value ω) → Prop
  | [], _ => True
  | e :: rest, D => e.LeavesLawfulOn D ∧ AllLeavesLawfulOn rest D

end

mutual

theorem lawfulOn_of_leaves [LawfulMonad m] (e : Expression m ω) (D : Set (Value ω))
    (h : e.LeavesLawfulOn D) : e.comparator.LawfulOn D := by
  match e with
  | leaf c => exact h
  | reverse e => exact (lawfulOn_of_leaves e D h).reverse
  | absentFirst e => exact (lawfulOn_of_leaves e _ h).withAbsent false
  | absentLast e => exact (lawfulOn_of_leaves e _ h).withAbsent true
  | onKey key e =>
      obtain ⟨k, hkey, he⟩ := h
      exact (lawfulOn_of_leaves e _ he).onKey hkey
  | inTurn first rest =>
      exact (lawfulOn_of_leaves first D h.1).inTurn (allLawfulOn_of_leaves rest D h.2)

theorem allLawfulOn_of_leaves [LawfulMonad m] (es : List (Expression m ω)) (D : Set (Value ω))
    (h : AllLeavesLawfulOn es D) : ∀ c ∈ comparators es, c.LawfulOn D := by
  match es with
  | [] =>
      intro c hc
      cases hc
  | e :: rest =>
      intro c hc
      rcases List.mem_cons.mp hc with rfl | hc
      · exact lawfulOn_of_leaves e D h.1
      · exact allLawfulOn_of_leaves rest D h.2 c hc

end

end Expression

end Arrange
