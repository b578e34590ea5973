import Arrange.Proofs.Order.Extension

/-!
# What a run of calls hashes

What a call hashes (`HashingCall.hashes`) depends on its values alone, so that a run of calls has a
history of hashed values. `IdentityTable.Registers` ties the identity table to such a history: it
holds the values of the history that are hashed by identity, in the order of their first places.
Hashing one more value keeps this (`Registers.hash`), and so does every call (`Registers.call`) and
every run (`Registers.calls`).
-/

set_option autoImplicit false

namespace Arrange

variable {ω : Type} [Objects ω]

/-! ## What a call hashes -/

/-- A value is hashed by identity when it is an array or an object, functions included, and brings
no hash code; a function never does. -/
def HashedByIdentity (v : Value ω) : Prop := v.isPrimitive = false ∧ bringsHash v = false

theorem fixedHash?_eq_none_iff (v : Value ω) : v.fixedHash? = none ↔ HashedByIdentity v := by
  unfold Value.fixedHash? HashedByIdentity bringsHash
  cases v.ownHash? <;> cases v.isPrimitive <;> simp

section Calls

variable {a b : Value ω}

theorem eitherAccepts_eq_false_iff : eitherAccepts a b = .ok false ↔
    acceptsAsEqual a b = .ok false ∧ acceptsAsEqual b a = .ok false := by
  unfold eitherAccepts
  cases acceptsAsEqual a b with
  | error fault => exact iff_of_false (fun h => by cases h) (fun h => by cases h.1)
  | ok answer =>
      cases answer with
      | true => exact iff_of_false (fun h => by cases h) (fun h => by cases h.1)
      | false => exact (and_iff_right rfl).symm

variable [DecidableEq ω]

/-- A comparison comes to hash codes when its values are passed over and no equality accepts. -/
theorem immediate?_eq_none_iff {absentLast : Bool} : immediate? a b absentLast = none ↔
    PassedOver a b ∧ acceptsAsEqual a b = .ok false ∧ acceptsAsEqual b a = .ok false := by
  rw [← eitherAccepts_eq_false_iff]
  by_cases hpassed : PassedOver a b
  · rw [immediate?_of_passedOver hpassed, and_iff_right hpassed]
    cases eitherAccepts a b with
    | error fault => simp
    | ok answer => cases answer <;> simp
  · rw [immediate?_of_not_passedOver hpassed]
    simp [hpassed]

/-- The values that a call hashes, one after another. A comparison that comes to hash codes hashes
its first value and then, unless that one's own hash code fails, its second. -/
def HashingCall.hashes : HashingCall ω → List (Value ω)
  | hash v => [v]
  | compare a b absentLast =>
      match immediate? a b absentLast, a.fixedHash? with
      | some _, _ => []
      | none, some (.error _) => [a]
      | none, _ => [a, b]

/-- Comparing by hash codes leaves the table that hashing the first value leaves, if that fails, and
otherwise the one that hashing both leaves. -/
theorem compareHashed_table (a b : Value ω) (t : IdentityTable ω) :
    ((compareHashed a b).exec t).2 = match a.fixedHash? with
      | some (.error _) => t
      | _ => t.hashed a b := by
  unfold compareHashed IdentityTable.hashed
  rw [Hashing.exec_bind, hashValue_exec a]
  cases a.fixedHash? with
  | none => exact Hashing.exec_bind_pure_table _ _ _
  | some r =>
      cases r with
      | error fault => rfl
      | ok h => exact Hashing.exec_bind_pure_table _ _ _

/-- A call leaves the table that hashing its values one after another leaves. -/
theorem HashingCall.table_eq (call : HashingCall ω) (t : IdentityTable ω) :
    call.table t = call.hashes.foldl (fun t v => ((hashValue v).exec t).2) t := by
  cases call with
  | hash v => rfl
  | compare a b absentLast =>
      rw [table, hashes, compareUniversal_exec]
      cases immediate? a b absentLast with
      | some r => rfl
      | none =>
          show (Hashing.exec (Value.ofOrdering <$> compareHashed a b : Hashing ω (Value ω)) t).2 = _
          rw [map_eq_pure_bind, Hashing.exec_bind_pure_table, compareHashed_table]
          cases hfixed : a.fixedHash? with
          | none => rfl
          | some r =>
              cases r with
              | ok h => rfl
              | error fault =>
                  show t = ((hashValue a).exec t).2
                  rw [hashValue_exec, hfixed]

end Calls

/-! ## The table and the history -/

section Tables

variable [DecidableEq ω]

namespace IdentityTable

omit [Objects ω] in
theorem find?_eq_none_iff {t : IdentityTable ω} {v : Value ω} : t.find? v = none ↔ v ∉ t.seen := by
  unfold find?
  rw [Option.map_eq_none_iff, List.findIdx?_eq_none_iff]
  constructor
  · intro h hv
    exact of_decide_eq_false (h v hv) rfl
  · intro h w hw
    exact decide_eq_false fun heq => h (heq ▸ hw)

omit [Objects ω] in
/-- The number of a value that the table holds once is its place, counted from 1. -/
theorem find?_eq_some_iff {t : IdentityTable ω} (h : t.seen.Nodup) {v : Value ω} {k : Nat} :
    t.find? v = some k ↔ ∃ (i : Nat) (hi : i < t.seen.length), t.seen[i] = v ∧ i + 1 = k := by
  unfold find?
  rw [Option.map_eq_some_iff]
  constructor
  · rintro ⟨i, hi, hk⟩
    obtain ⟨hlt, hv, -⟩ := List.findIdx?_eq_some_iff_getElem.mp hi
    exact ⟨i, hlt, of_decide_eq_true hv, hk⟩
  · rintro ⟨i, hi, hv, hk⟩
    refine ⟨i, List.findIdx?_eq_some_iff_getElem.mpr ⟨hi, decide_eq_true hv, fun j hj => ?_⟩, hk⟩
    -- an earlier place holds another value
    have hne : t.seen[j] ≠ t.seen[i] := List.pairwise_iff_getElem.mp h j i (hj.trans hi) hi hj
    rw [hv] at hne
    simpa using hne

omit [Objects ω] in
/-- No two values have one number. -/
theorem find?_inj {t : IdentityTable ω} {v w : Value ω} {k : Nat} (hv : t.find? v = some k)
    (hw : t.find? w = some k) : v = w := by
  obtain ⟨i, hi, rfl⟩ := Option.map_eq_some_iff.mp hv
  obtain ⟨j, hj, hij⟩ := Option.map_eq_some_iff.mp hw
  obtain rfl : j = i := Nat.succ.inj hij
  obtain ⟨_, hiv, -⟩ := List.findIdx?_eq_some_iff_getElem.mp hi
  obtain ⟨_, hjw, -⟩ := List.findIdx?_eq_some_iff_getElem.mp hj
  exact (of_decide_eq_true hiv).symm.trans (of_decide_eq_true hjw)

/-- The hash code of a value that is hashed by identity is its number. -/
theorem code_of_find {t : IdentityTable ω} {v : Value ω} {k : Nat} (hfixed : v.fixedHash? = none)
    (hk : t.find? v = some k) : t.code v = k := by
  rw [code, hfixed]
  show ((t.hashOf v : Nat) : Int) = k
  rw [hashOf, hk, Option.getD_some]

/-- The table holds the values of a history that are hashed by identity, in the order in which they
first come in it. -/
structure Registers (t : IdentityTable ω) (history : List (Value ω)) : Prop where
  inOrder : t.seen.Pairwise fun v w => history.idxOf v < history.idxOf w
  mem_iff : ∀ v, v ∈ t.seen ↔ v ∈ history ∧ HashedByIdentity v

theorem registers_empty : (∅ : IdentityTable ω).Registers [] where
  inOrder := List.Pairwise.nil
  mem_iff v := by
    constructor
    · intro h
      cases h
    · rintro ⟨h, -⟩
      cases h

namespace Registers

variable {t : IdentityTable ω} {history : List (Value ω)} (h : t.Registers history)

include h

theorem nodup : t.seen.Nodup := h.inOrder.imp fun hlt heq => by
  rw [heq] at hlt
  exact Nat.lt_irrefl _ hlt

/-- What is hashed later leaves the first places in the history as they are. -/
theorem inOrder_snoc (v : Value ω) :
    t.seen.Pairwise fun w u => (history ++ [v]).idxOf w < (history ++ [v]).idxOf u := by
  refine h.inOrder.imp_of_mem fun {w u} hw hu hlt => ?_
  have hw := ((h.mem_iff w).mp hw).1
  have hu := ((h.mem_iff u).mp hu).1
  rwa [List.idxOf_append_of_mem hw, List.idxOf_append_of_mem hu]

/-- A value that has its number already, or is given none, is hashed once more. -/
theorem keep {v : Value ω} (hv : HashedByIdentity v → v ∈ t.seen) :
    t.Registers (history ++ [v]) := by
  refine ⟨h.inOrder_snoc v, fun w => ?_⟩
  rw [h.mem_iff, List.mem_append, List.mem_singleton]
  constructor
  · rintro ⟨hw, hidentity⟩
    exact ⟨.inl hw, hidentity⟩
  · rintro ⟨hw | rfl, hidentity⟩
    · exact ⟨hw, hidentity⟩
    · exact (h.mem_iff w).mp (hv hidentity)

/-- A new value is hashed by identity. -/
theorem add {v : Value ω} (hidentity : HashedByIdentity v) (hnew : v ∉ t.seen) :
    IdentityTable.Registers ⟨t.seen ++ [v]⟩ (history ++ [v]) := by
  have hfirst : v ∉ history := fun hv => hnew ((h.mem_iff v).mpr ⟨hv, hidentity⟩)
  constructor
  · refine List.pairwise_append.mpr ⟨h.inOrder_snoc v, List.pairwise_singleton _ v, ?_⟩
    intro w hw u hu
    rw [List.mem_singleton.mp hu]
    have hw := ((h.mem_iff w).mp hw).1
    calc (history ++ [v]).idxOf w
        = history.idxOf w := List.idxOf_append_of_mem hw
      _ < history.length := List.idxOf_lt_length_of_mem hw
      _ = (history ++ [v]).idxOf v := by simp [List.idxOf_append_of_notMem hfirst]
  · intro w
    rw [List.mem_append, List.mem_append, List.mem_singleton, h.mem_iff]
    constructor
    · rintro (⟨hw, hw'⟩ | rfl)
      · exact ⟨.inl hw, hw'⟩
      · exact ⟨.inr rfl, hidentity⟩
    · rintro ⟨hw | rfl, hw'⟩
      · exact .inl ⟨hw, hw'⟩
      · exact .inr rfl

/-- Hashing one more value. -/
theorem hash (v : Value ω) : ((hashValue v).exec t).2.Registers (history ++ [v]) := by
  rw [hashValue_exec]
  cases hfixed : v.fixedHash? with
  | some r =>
      have hnot : ¬HashedByIdentity v := by
        rw [← fixedHash?_eq_none_iff, hfixed]
        exact Option.some_ne_none r
      exact h.keep fun hidentity => absurd hidentity hnot
  | none =>
      show (t.enter v).Registers (history ++ [v])
      by_cases hnew : v ∈ t.seen
      · obtain ⟨k, hk⟩ := Option.ne_none_iff_exists'.mp fun hnone => find?_eq_none_iff.mp hnone hnew
        rw [enter_of_find hk]
        exact h.keep fun _ => hnew
      · rw [enter, find?_eq_none_iff.mpr hnew]
        exact h.add ((fixedHash?_eq_none_iff v).mp hfixed) hnew

theorem hashAll (values : List (Value ω)) :
    (values.foldl (fun t v => ((hashValue v).exec t).2) t).Registers (history ++ values) := by
  induction values generalizing t history with
  | nil => simpa using h
  | cons v rest ih =>
      have hrest := ih (h.hash v)
      rwa [List.append_assoc] at hrest

theorem call (call : HashingCall ω) : (call.table t).Registers (history ++ call.hashes) := by
  rw [HashingCall.table_eq]
  exact h.hashAll call.hashes

theorem calls (calls : List (HashingCall ω)) :
    (t.after calls).Registers (history ++ calls.flatMap HashingCall.hashes) := by
  induction calls generalizing t history with
  | nil =>
      rw [List.flatMap_nil, List.append_nil]
      exact h
  | cons call rest ih =>
      have hrest := ih (h.call call)
      rwa [List.append_assoc] at hrest

end Registers

end IdentityTable

end Tables

end Arrange
