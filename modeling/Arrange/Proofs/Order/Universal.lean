import Arrange.Proofs.Order.Obliging

/-!
# The outcome of the universal comparison

Two values are ranked without hashing, by being the same, by an absence, by a natural order in
common or by an equality (`rankedSign`), or else by hash code and text (`IdentityTable.order`).
`compareUniversal_exec` splits a comparison along this line. Where the methods of the values oblige,
comparing settles the outcome (`Obliging.compareUniversal_settles`), and a settled outcome is given
from then on (`Obliging.compareUniversal_of_settled`).
-/

set_option autoImplicit false

namespace Arrange

open Std

variable {ω : Type} [DecidableEq ω] [Objects ω]

/-! ## Comparing -/

/-- What the comparison of two values gives before any value is hashed, if it comes to an end
there. -/
def immediate? (a b : Value ω) (absentLast : Bool) : Option (Except (Fault ω) (Value ω)) :=
  if a = b then some (.ok (.ofOrdering .eq))
  else
    match absentOrder? a b absentLast with
    | some o => some (.ok (.ofOrdering o))
    | none =>
        if haveCommonOrder a b then some (compareNatural a b)
        else
          match eitherAccepts a b with
          | .error fault => some (.error fault)
          | .ok true => some (.ok (.ofOrdering .eq))
          | .ok false => none

/-- An immediate result leaves the table alone; otherwise the two values are hashed. -/
theorem compareUniversal_exec (a b : Value ω) (absentLast : Bool) (t : IdentityTable ω) :
    (compareUniversal a b absentLast).exec t = match immediate? a b absentLast with
      | some r => (r, t)
      | none => (Value.ofOrdering <$> compareHashed a b : Hashing ω (Value ω)).exec t := by
  unfold compareUniversal immediate?
  by_cases hab : a = b
  · simp only [if_pos hab]
    rfl
  · simp only [if_neg hab]
    cases absentOrder? a b absentLast with
    | some o => rfl
    | none =>
        by_cases hcommon : haveCommonOrder a b = true
        · simp only [if_pos hcommon, Hashing.exec_ofExcept]
        · simp only [if_neg hcommon]
          cases eitherAccepts a b with
          | error fault => rfl
          | ok answer => cases answer <;> rfl

theorem compareUniversal_grows (a b : Value ω) (absentLast : Bool) :
    (compareUniversal a b absentLast).Grows := by
  have hhashed : (compareHashed a b).Grows := by
    apply (hashValue_grows a).bind
    intro h
    apply (hashValue_grows b).bind
    intro k
    exact Hashing.Grows.of_pure _
  intro t
  rw [compareUniversal_exec]
  cases immediate? a b absentLast with
  | some r => exact le_rfl
  | none =>
      show t ≤ (Hashing.exec (Value.ofOrdering <$> compareHashed a b) t).2
      rw [map_eq_pure_bind]
      exact hhashed.bind (fun o => Hashing.Grows.of_pure _) t

/-! ## Further calls -/

/-- A call that reads and extends the identity table. -/
inductive HashingCall (ω : Type) where
  | compare (a b : Value ω) (absentLast : Bool)
  | hash (v : Value ω)

/-- The table that a call leaves, whether it fails or not. -/
def HashingCall.table (t : IdentityTable ω) : HashingCall ω → IdentityTable ω
  | compare a b absentLast => ((compareUniversal a b absentLast).exec t).2
  | hash v => ((hashValue v).exec t).2

/-- The table that a sequence of calls leaves. -/
def IdentityTable.after (t : IdentityTable ω) (calls : List (HashingCall ω)) : IdentityTable ω :=
  calls.foldl HashingCall.table t

theorem HashingCall.le_table (t : IdentityTable ω) (call : HashingCall ω) : t ≤ call.table t := by
  cases call with
  | compare a b absentLast => exact compareUniversal_grows a b absentLast t
  | hash v => exact hashValue_grows v t

theorem IdentityTable.le_after (t : IdentityTable ω) (calls : List (HashingCall ω)) :
    t ≤ t.after calls := by
  induction calls generalizing t with
  | nil => exact le_rfl
  | cons call calls ih =>
      have hfirst : t ≤ call.table t := call.le_table t
      have hrest : call.table t ≤ (call.table t).after calls := ih (call.table t)
      exact hfirst.trans hrest

/-! ## Ranking without hashing -/

/-- The outcome for two values that are ranked without hashing: they are the same, one is absent,
they have a natural order in common, or one accepts the other. -/
def rankedSign (own : Value ω → Value ω → Ordering) (absentLast : Bool) (a b : Value ω) :
    Option Ordering :=
  if a = b then some .eq
  else
    match absentOrder? a b absentLast with
    | some o => some o
    | none =>
        if haveCommonOrder a b then some (naturalSign own a b)
        else if accepts a b then some .eq else none

/-- The outcome of comparing two values: their rank, or the order by hash code and text. -/
def IdentityTable.sign (own : Value ω → Value ω → Ordering) (absentLast : Bool)
    (t : IdentityTable ω) (a b : Value ω) : Ordering :=
  (rankedSign own absentLast a b).getD (t.order a b)

section Signs

variable {own : Value ω → Value ω → Ordering} {absentLast : Bool} {t : IdentityTable ω}

theorem sign_of_absent {a b : Value ω} {o : Ordering} (h : absentOrder? a b absentLast = some o) :
    t.sign own absentLast a b = o := by
  unfold IdentityTable.sign rankedSign
  by_cases hab : a = b
  · rw [if_pos hab]
    subst hab
    exact (eq_of_absentOrder?_self h).symm
  · rw [if_neg hab, h]
    rfl

theorem sign_of_present {a b : Value ω} (ha : a.isAbsent = false) (hb : b.isAbsent = false) :
    t.sign own absentLast a b = if a = b then .eq
      else if haveCommonOrder a b then naturalSign own a b
      else if accepts a b then .eq else t.order a b := by
  unfold IdentityTable.sign rankedSign absentOrder?
  rw [ha, hb]
  by_cases hab : a = b
  · rw [if_pos hab, if_pos hab]
    rfl
  · rw [if_neg hab, if_neg hab]
    show Option.getD (if haveCommonOrder a b then _ else _) _ = _
    cases haveCommonOrder a b <;> cases accepts a b <;> rfl

end Signs

/-- The outcome is settled: the two values are ranked without hashing, or their codes are settled.
-/
def IdentityTable.Settles (own : Value ω → Value ω → Ordering) (absentLast : Bool)
    (t : IdentityTable ω) (a b : Value ω) : Prop :=
  rankedSign own absentLast a b = none → t.Knows a ∧ t.Knows b

/-! ## The outcome -/

namespace Obliging

variable {own : Value ω → Value ω → Ordering} {S : Set (Value ω)} (h : Obliging own S)
  {a b : Value ω} (ha : a ∈ S) (hb : b ∈ S)

include h ha hb

/-- The values that are ranked without hashing have an immediate result, with the sign of their
rank, and the others have none. -/
theorem immediate_of_ranked (absentLast : Bool) :
    match rankedSign own absentLast a b with
    | some o => ∃ x, Number.HasSign x o ∧ immediate? a b absentLast = some (.ok (.number x))
    | none => immediate? a b absentLast = none := by
  have hnumber : ∀ o : Ordering, ∃ x, Number.HasSign x o ∧
      some (.ok (.ofOrdering o)) = some (Except.ok (.number x) : Except (Fault ω) (Value ω)) := by
    intro o
    obtain ⟨x, hx, hsign⟩ := Value.exists_ofOrdering (ω := ω) o
    exact ⟨x, hsign, by rw [hx]⟩
  unfold rankedSign immediate?
  by_cases hab : a = b
  · simp only [if_pos hab]
    exact hnumber .eq
  · simp only [if_neg hab]
    cases absentOrder? a b absentLast with
    | some o => exact hnumber o
    | none =>
        by_cases hcommon : haveCommonOrder a b = true
        · obtain ⟨c, hca, hcb⟩ := (haveCommonOrder_iff a b).mp hcommon
          obtain ⟨x, hx, hsign⟩ := h.compareNatural_of_class ha hb hca hcb
          simp only [if_pos hcommon]
          rw [naturalSign_of_class hca, hx]
          exact ⟨x, hsign, rfl⟩
        · simp only [if_neg hcommon]
          rw [h.eitherAccepts_eq ha hb]
          cases accepts a b with
          | true => exact hnumber .eq
          | false => rfl

variable {absentLast : Bool}

theorem compareUniversal_of_ranked {o : Ordering}
    (hranked : rankedSign own absentLast a b = some o) :
    ∃ x, Number.HasSign x o ∧
      ∀ t, (compareUniversal a b absentLast).exec t = (.ok (.number x), t) := by
  have himmediate := h.immediate_of_ranked ha hb absentLast
  rw [hranked] at himmediate
  obtain ⟨x, hsign, hx⟩ := himmediate
  refine ⟨x, hsign, fun t => ?_⟩
  rw [compareUniversal_exec, hx]

theorem compareUniversal_of_unranked (hranked : rankedSign own absentLast a b = none)
    (t : IdentityTable ω) :
    (compareUniversal a b absentLast).exec t
      = (.ok (.ofOrdering ((t.hashed a b).order a b)), t.hashed a b) := by
  have himmediate := h.immediate_of_ranked ha hb absentLast
  rw [hranked] at himmediate
  calc (compareUniversal a b absentLast).exec t
      = Hashing.exec (compareHashed a b >>= fun o => pure (Value.ofOrdering o)) t := by
        rw [compareUniversal_exec, himmediate, ← map_eq_pure_bind]
    _ = (.ok (.ofOrdering ((t.hashed a b).order a b)), t.hashed a b) := by
        rw [Hashing.exec_bind, h.compareHashed_exec ha hb]
        rfl

/-- A settled outcome is given in every later table, which stays as it is. -/
theorem compareUniversal_of_settled {t : IdentityTable ω}
    (hsettled : t.Settles own absentLast a b) :
    ∃ x, Number.HasSign x (t.sign own absentLast a b) ∧
      ∀ t', t ≤ t' → (compareUniversal a b absentLast).exec t' = (.ok (.number x), t') := by
  unfold IdentityTable.sign
  cases hranked : rankedSign own absentLast a b with
  | some o =>
      obtain ⟨x, hsign, hx⟩ := h.compareUniversal_of_ranked ha hb hranked
      exact ⟨x, hsign, fun t' _ => hx t'⟩
  | none =>
      obtain ⟨hka, hkb⟩ := hsettled hranked
      obtain ⟨x, hx, hsign⟩ := Value.exists_ofOrdering (ω := ω) (t.order a b)
      refine ⟨x, hsign, fun t' hle => ?_⟩
      rw [h.compareUniversal_of_unranked ha hb hranked,
        IdentityTable.hashed_of_knows (hka.of_le hle) (hkb.of_le hle),
        IdentityTable.order_of_le hka hkb hle, hx]

/-- Comparing settles the outcome, and gives at once what it will give in the table it leaves. -/
theorem compareUniversal_settles (t : IdentityTable ω) :
    ∃ t', t'.Settles own absentLast a b ∧ (compareUniversal a b absentLast).exec t
      = (((compareUniversal a b absentLast).exec t').1, t') := by
  cases hranked : rankedSign own absentLast a b with
  | some o =>
      obtain ⟨x, -, hx⟩ := h.compareUniversal_of_ranked ha hb hranked
      refine ⟨t, fun hnone => ?_, ?_⟩
      · rw [hranked] at hnone
        cases hnone
      · rw [hx]
  | none =>
      have hknows := t.knows_hashed a b
      refine ⟨t.hashed a b, fun _ => hknows, ?_⟩
      -- once hashed the two values are not hashed again
      rw [h.compareUniversal_of_unranked ha hb hranked,
        h.compareUniversal_of_unranked ha hb hranked,
        IdentityTable.hashed_of_knows hknows.1 hknows.2]

end Obliging

/-- Two values that were hashed compare to the outcome of the table, which stays as it is. -/
theorem Obliging.compareUniversal_of_knows {own : Value ω → Value ω → Ordering}
    {S : Set (Value ω)} (h : Obliging own S) {a b : Value ω} (ha : a ∈ S) (hb : b ∈ S)
    (absentLast : Bool) {t : IdentityTable ω} (hka : t.Knows a) (hkb : t.Knows b) :
    ∃ x, (compareUniversal a b absentLast).exec t = (.ok (.number x), t) ∧
      Number.HasSign x (t.sign own absentLast a b) := by
  have hsettled : t.Settles own absentLast a b := fun _ => ⟨hka, hkb⟩
  obtain ⟨x, hx, hexec⟩ := h.compareUniversal_of_settled ha hb hsettled
  exact ⟨x, hexec t le_rfl, hx⟩

end Arrange
