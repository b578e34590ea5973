import Arrange.Catalog
import Arrange.Proofs.Order.Universal

/-!
# The universal comparison keeps its word

Comparing hashes values and so changes the identity table, on which the outcome of other comparisons
depends. But a table only grows, and an outcome that was given once is given from then on, also
turned round when the two values are (`compareUniversal_stays`).
-/

set_option autoImplicit false

namespace Arrange

open Std

variable {ω : Type} [DecidableEq ω] [Objects ω]

/-! ## Turning round -/

namespace Obliging

variable {own : Value ω → Value ω → Ordering} {S : Set (Value ω)} (h : Obliging own S)
  {a b : Value ω} (ha : a ∈ S) (hb : b ∈ S) (hswap : own b a = (own a b).swap)

include h ha hb hswap

/-- Each of the ways to rank two values without hashing is symmetric. -/
theorem rankedSign_swap (absentLast : Bool) :
    rankedSign own absentLast b a = (rankedSign own absentLast a b).map Ordering.swap := by
  unfold rankedSign
  by_cases hab : a = b
  · rw [if_pos hab, if_pos hab.symm]
    rfl
  · rw [if_neg hab, if_neg (Ne.symm hab), absentOrder?_swap a b]
    cases absentOrder? a b absentLast with
    | some o => rfl
    | none =>
        show (if haveCommonOrder b a then _ else _)
          = Option.map _ (if haveCommonOrder a b then _ else _)
        by_cases hcommon : haveCommonOrder a b = true
        · obtain ⟨c, hca, hcb⟩ := (haveCommonOrder_iff a b).mp hcommon
          rw [if_pos hcommon, haveCommonOrder_comm b a, if_pos hcommon, naturalSign_of_class hca,
            naturalSign_of_class hcb, OrderClass.sign_swap hswap hca hcb]
          rfl
        · rw [if_neg hcommon, haveCommonOrder_comm b a, if_neg hcommon, h.accepts_comm ha hb]
          cases accepts a b <;> rfl

theorem sign_swap (absentLast : Bool) (t : IdentityTable ω) :
    t.sign own absentLast b a = (t.sign own absentLast a b).swap := by
  unfold IdentityTable.sign
  rw [h.rankedSign_swap ha hb hswap]
  cases rankedSign own absentLast a b with
  | some o => rfl
  | none =>
      show t.order b a = (t.order a b).swap
      exact OrientedCmp.eq_swap

theorem settles_swap {absentLast : Bool} {t : IdentityTable ω}
    (hsettled : t.Settles own absentLast a b) : t.Settles own absentLast b a := by
  intro hranked
  rw [h.rankedSign_swap ha hb hswap] at hranked
  have hknows : t.Knows a ∧ t.Knows b := hsettled (Option.map_eq_none_iff.mp hranked)
  exact ⟨hknows.2, hknows.1⟩

end Obliging

/-! ## Keeping an answer -/

/-- Two values whose methods oblige compare to a number from any table on. After any further calls,
on whatever values and with whatever faults, comparing them gives this number again, comparing them
the other way round gives one of the opposite sign, and a value is always equal to itself. -/
theorem compareUniversal_stays {own : Value ω → Value ω → Ordering} {a b : Value ω}
    (h : Obliging own {a, b}) (hswap : own b a = (own a b).swap) (absentLast : Bool)
    (t : IdentityTable ω) :
    ∃ (x : Float) (t₁ : IdentityTable ω) (o : Ordering), Number.HasSign x o ∧
      (compareUniversal a b absentLast).exec t = (.ok (.number x), t₁) ∧
      ∀ calls : List (HashingCall ω),
        ((compareUniversal a b absentLast).exec (t₁.after calls)).1 = .ok (.number x) ∧
        (∃ y, Number.HasSign y o.swap ∧
          ((compareUniversal b a absentLast).exec (t₁.after calls)).1 = .ok (.number y)) ∧
        ((compareUniversal a a absentLast).exec (t₁.after calls)).1 = .ok (.number 0) := by
  have ha : a ∈ ({a, b} : Set (Value ω)) := Set.mem_insert a {b}
  have hb : b ∈ ({a, b} : Set (Value ω)) := Set.mem_insert_of_mem a rfl
  obtain ⟨t₁, hsettled, hexec⟩ := h.compareUniversal_settles ha hb t
  -- in the table that is left the outcome is settled for both ways round
  obtain ⟨x, hx, hstays⟩ := h.compareUniversal_of_settled ha hb hsettled
  obtain ⟨y, hy, hstays'⟩ := h.compareUniversal_of_settled hb ha
    (h.settles_swap ha hb hswap hsettled)
  rw [h.sign_swap ha hb hswap] at hy
  rw [hstays t₁ le_rfl] at hexec
  refine ⟨x, t₁, t₁.sign own absentLast a b, hx, hexec, fun calls => ?_⟩
  have hle : t₁ ≤ t₁.after calls := t₁.le_after calls
  refine ⟨?_, ⟨y, hy, ?_⟩, ?_⟩
  · rw [hstays _ hle]
  · rw [hstays' _ hle]
  · rw [compareUniversal_exec, immediate?, if_pos rfl]
    rfl

/-- Two objects that are hashed by identity. From the empty table each comes first when it is asked
about first; the answer that is given stays when a function was hashed between them. -/
theorem compareUniversal_stays_for_objects :
    let catalog : Catalog := #[⟨none, .record, [], none, none, some (.isOneOf ["z"]), none, none⟩,
      .ofNature none .record, .ofNature none (.function "f")]
    let _ : Objects Item := catalog.objects
    let a : Value Item := .object ⟨0⟩
    let b : Value Item := .object ⟨1⟩
    let own : Value Item → Value Item → Ordering := fun _ _ => .eq
    Obliging own {a, b} ∧ own b a = (own a b).swap ∧
      ((compareUniversal a b false).exec ∅).1 = .ok (.number (-1)) ∧
      ((compareUniversal b a false).exec ∅).1 = .ok (.number (-1)) ∧
      ∃ y, Number.HasSign y .gt ∧ ((compareUniversal b a false).exec
        (((compareUniversal a b false).exec ∅).2.after
          [.compare (.object ⟨2⟩) b true, .hash (.text "z")])).1 = .ok (.number y) := by
  intro catalog _ a b own
  have hobliging : Obliging own {a, b} := by
    refine ⟨?_, ?_, ?_⟩
    · rintro v (rfl | rfl) w - hv <;> cases hv
    · rintro v (rfl | rfl) w hw equals hequals
      · cases hequals
        rcases hw with rfl | rfl <;> exact ⟨.bool false, rfl⟩
      · cases hequals
    · rintro v (rfl | rfl) code hcode <;> cases hcode
  obtain ⟨x, t₁, o, hx, hexec, hstays⟩ := compareUniversal_stays hobliging rfl false ∅
  have hanswer : ((compareUniversal a b false).exec ∅).1 = .ok (.number (-1)) := rfl
  have hless : x = -1 := Hashing.number_of_exec hexec hanswer
  have ho : o = .lt := by
    rw [hless] at hx
    exact (Option.some.inj hx).symm
  obtain ⟨-, ⟨y, hy, hback⟩, -⟩ := hstays [.compare (.object ⟨2⟩) b true, .hash (.text "z")]
  rw [ho] at hy
  refine ⟨hobliging, rfl, hanswer, rfl, y, hy, ?_⟩
  rw [hexec]
  exact hback

end Arrange
