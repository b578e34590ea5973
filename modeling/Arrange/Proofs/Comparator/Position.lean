import Arrange.Proofs.Comparator.Leaves
import Arrange.Proofs.Order.Identity

/-!
# The position of a key

A reference order finds a key at the first entry that matches it (`FirstMatch`): by the equality
that the key brings, or else by being the same value, where the two zeros count as one. The
positions that are recorded once are those that a scan of the entries finds (`lookUp_positions`).
Keys that no entry matches rank before all others or after them, and keys compare by their ranks:
`ReferenceOrder.ranks_by_first_match`.
-/

set_option autoImplicit false

namespace Arrange

variable {ω : Type}

/-! ## Values that are one key -/

namespace Value

variable [DecidableEq ω]

/-- Values are one key when they are the same or both a zero; NaN is one key with itself. -/
theorem sameKey_iff (a b : Value ω) :
    a.sameKey b = true ↔ a = b ∨ (a.isZero = true ∧ b.isZero = true) := by
  unfold sameKey
  split
  next x y =>
    simp only [Bool.or_eq_true, decide_eq_true_eq, Value.number.injEq, isZero]
    constructor
    · rintro (hbeq | hsame)
      · obtain ⟨-, -, hplace⟩ := (Number.beq_iff x y).mp hbeq
        obtain hsame | ⟨rfl, rfl⟩ | ⟨rfl, rfl⟩ := Number.eq_or_zeros_of_placeOrder hplace
        · exact .inl hsame
        · exact .inr (by decide)
        · exact .inr (by decide)
      · exact .inl hsame
    · rintro (hsame | ⟨hx, hy⟩)
      · exact .inr hsame
      · left
        rcases Number.beq_zero_iff.mp hx with rfl | rfl <;>
          rcases Number.beq_zero_iff.mp hy with rfl | rfl <;> decide
  next hnumbers =>
    rw [same_iff]
    refine ⟨.inl, ?_⟩
    rintro (hsame | ⟨ha, hb⟩)
    · exact hsame
    · -- only numbers are zeros
      cases a with
      | number x =>
          cases b with
          | number y => exact absurd rfl (hnumbers x y rfl)
          | _ => cases hb
      | _ => cases ha

/-- Whatever is one key with one of two values that are one key is so with the other. -/
theorem sameKey_congr {a b : Value ω} (h : a.sameKey b = true) (c : Value ω) :
    c.sameKey a = c.sameKey b := by
  rw [Bool.eq_iff_iff, sameKey_iff, sameKey_iff]
  rcases (sameKey_iff a b).mp h with rfl | ⟨ha, hb⟩
  · rfl
  · simp only [ha, hb, and_true]
    constructor
    · rintro (rfl | hc)
      · exact .inr ha
      · exact .inr hc
    · rintro (rfl | hc)
      · exact .inr hb
      · exact .inr hc

end Value

namespace ReferenceOrder

/-! ## The recorded positions -/

section Recorded

variable [DecidableEq ω]

theorem lookUp_congr {a b : Value ω} (h : a.sameKey b = true) (known : List (Value ω × Nat)) :
    lookUp a known = lookUp b known := by
  have hsame : (fun entry : Value ω × Nat => entry.1.sameKey a) = fun entry => entry.1.sameKey b :=
    funext fun entry => Value.sameKey_congr h entry.1
  rw [lookUp, lookUp, hsame]

theorem lookUp_snoc (key entry : Value ω) (i : Nat) (known : List (Value ω × Nat)) :
    lookUp key (known ++ [(entry, i)])
      = (lookUp key known).or (if entry.sameKey key then some i else none) := by
  rw [lookUp, lookUp, List.find?_append, Option.map_or]
  cases h : entry.sameKey key <;> simp [h]

/-- A key has the position that is known of it, or else that of its first entry. -/
theorem lookUp_record (key : Value ω) (known : List (Value ω × Nat)) (index : Nat)
    (entries : List (Value ω)) :
    lookUp key (record known index entries)
      = (lookUp key known).or ((entries.findIdx? fun w => w.sameKey key).map (· + index)) := by
  induction entries generalizing known index with
  | nil => simp [record]
  | cons w rest ih =>
      have hlater : (rest.findIdx? fun w => w.sameKey key).map (· + (index + 1))
          = ((rest.findIdx? fun w => w.sameKey key).map (· + 1)).map (· + index) := by
        rw [Option.map_map]
        congr 1
        funext i
        simp only [Function.comp_apply]
        omega
      rw [record, List.findIdx?_cons]
      cases hw : w.sameKey key with
      | true =>
          -- a position is known of the entry exactly when one is known of the key
          rw [lookUp_congr hw]
          cases hknown : lookUp key known with
          | some i => simp [ih, hknown]
          | none => simp [ih, lookUp_snoc, hknown, hw]
      | false =>
          cases lookUp w known with
          | some i => simp [ih, hlater]
          | none => simp [ih, lookUp_snoc, hw, hlater]

/-- The positions are those of a scan of the entries. -/
theorem lookUp_positions (atEnd key : Value ω) (entries : List (Value ω)) :
    lookUp key (make atEnd entries).positions = entries.findIdx? fun w => w.sameKey key := by
  show lookUp key (record [] 0 entries) = _
  rw [lookUp_record]
  simp [lookUp]

end Recorded

/-! ## The first match -/

section Matches

variable [Objects ω] {key w : Value ω} {entries rest : List (Value ω)} {p : Option Nat}

/-- An entry matches a key: the equality that the key brings accepts it, or, where the key brings
none, both are the same value or a zero. -/
def Matches (key entry : Value ω) : Prop :=
  match key.ownEquality? with
  | some equals => ∃ answer, equals entry = .ok answer ∧ answer.truthy = true
  | none => entry = key ∨ (entry.isZero = true ∧ key.isZero = true)

/-- The first entry that matches a key stands at a position, or no entry matches. -/
def FirstMatch (key : Value ω) (entries : List (Value ω)) : Option Nat → Prop
  | some i => ∃ h : i < entries.length,
      Matches key entries[i] ∧ ∀ j < i, ∀ hj : j < entries.length, ¬Matches key entries[j]
  | none => ∀ entry ∈ entries, ¬Matches key entry

theorem firstMatch_cons_of_matches (h : Matches key w) : FirstMatch key (w :: rest) (some 0) :=
  ⟨Nat.zero_lt_succ _, h, fun _ hj _ => absurd hj (Nat.not_lt_zero _)⟩

/-- An entry that does not match moves the first match by one. -/
theorem FirstMatch.cons (h : ¬Matches key w) (hrest : FirstMatch key rest p) :
    FirstMatch key (w :: rest) (p.map (· + 1)) := by
  cases p with
  | none => exact List.forall_mem_cons.mpr ⟨h, hrest⟩
  | some i =>
      obtain ⟨hi, hmatch, hbefore⟩ := hrest
      refine ⟨Nat.succ_lt_succ hi, hmatch, fun j hj hlt => ?_⟩
      cases j with
      | zero => exact h
      | succ j => exact hbefore j (Nat.lt_of_succ_lt_succ hj) (Nat.lt_of_succ_lt_succ hlt)

/-- There is no more than one first match. -/
theorem FirstMatch.unique {q : Option Nat} (hp : FirstMatch key entries p)
    (hq : FirstMatch key entries q) : p = q := by
  cases p with
  | none =>
      cases q with
      | none => rfl
      | some j => exact absurd hq.2.1 (hp _ (List.getElem_mem hq.1))
  | some i =>
      cases q with
      | none => exact absurd hp.2.1 (hq _ (List.getElem_mem hp.1))
      | some j =>
          rcases Nat.lt_trichotomy i j with hij | rfl | hji
          · exact absurd hp.2.1 (hq.2.2 i hij hp.1)
          · rfl
          · exact absurd hq.2.1 (hp.2.2 j hji hq.1)

/-- The first entry that passes a test for matching is the first match. -/
theorem firstMatch_findIdx? {test : Value ω → Bool}
    (h : ∀ w ∈ entries, test w = true ↔ Matches key w) :
    FirstMatch key entries (entries.findIdx? test) := by
  cases hp : entries.findIdx? test with
  | none =>
      intro w hw hmatch
      rw [← h w hw, List.findIdx?_eq_none_iff.mp hp w hw] at hmatch
      cases hmatch
  | some i =>
      obtain ⟨hi, htest, hbefore⟩ := List.findIdx?_eq_some_iff_getElem.mp hp
      refine ⟨hi, (h _ (List.getElem_mem hi)).mp htest, fun j hj hlt hmatch => ?_⟩
      exact hbefore j hj ((h _ (List.getElem_mem hlt)).mpr hmatch)

/-- A scan that comes to an answer has found the first match. -/
theorem firstMatch_of_scan {accepts : Value ω → Except (Fault ω) (Value ω)} {index : Nat}
    (hown : key.ownEquality? = some accepts) (h : scan accepts index entries = .ok p) :
    ∃ q, FirstMatch key entries q ∧ p = q.map (· + index) := by
  have hmatches : ∀ entry, Matches key entry ↔
      ∃ answer, accepts entry = .ok answer ∧ answer.truthy = true := by
    simp [Matches, hown]
  induction entries generalizing index with
  | nil =>
      cases h
      exact ⟨none, fun _ hmem => absurd hmem List.not_mem_nil, rfl⟩
  | cons w rest ih =>
      rw [scan] at h
      cases hw : accepts w with
      | error fault => simp [hw] at h
      | ok answer =>
          cases htrue : answer.truthy with
          | true =>
              simp only [hw, htrue, if_true, Except.ok.injEq] at h
              have hmatch : Matches key w := (hmatches w).mpr ⟨answer, hw, htrue⟩
              exact ⟨some 0, firstMatch_cons_of_matches hmatch, by simp [← h]⟩
          | false =>
              simp only [hw, htrue, Bool.false_eq_true, if_false] at h
              obtain ⟨q, hq, rfl⟩ := ih h
              have hnot : ¬Matches key w := by simp [hmatches, hw, htrue]
              refine ⟨q.map (· + 1), hq.cons hnot, ?_⟩
              cases q with
              | none => rfl
              | some i => simp only [Option.map_some, Nat.add_right_comm i 1 index, Nat.add_assoc]

variable [DecidableEq ω]

/-- Wherever a position is found, it is that of the first match. -/
theorem firstMatch_of_position {atEnd : Value ω} (h : (make atEnd entries).position? key = .ok p) :
    FirstMatch key entries p := by
  rw [position?] at h
  cases hown : key.ownEquality? with
  | some accepts =>
      rw [hown] at h
      obtain ⟨q, hq, rfl⟩ := firstMatch_of_scan hown h
      have hfirst : FirstMatch key entries q := hq
      simpa using hfirst
  | none =>
      simp only [hown, lookUp_positions, Except.ok.injEq] at h
      subst h
      refine firstMatch_findIdx? fun w _ => ?_
      rw [Value.sameKey_iff, Matches, hown]

end Matches

/-! ## Ranks -/

/-- The rank of the keys that are not found. -/
def missRank (r : ReferenceOrder ω) : Int := if r.atEnd.truthy then r.keys.length else -1

/-- Keys that are not found rank outside of all positions. -/
theorem missRank_outside {r : ReferenceOrder ω} {i : Nat} (h : i < r.keys.length) :
    if r.atEnd.truthy then (i : Int) < r.missRank else r.missRank < i := by
  unfold missRank
  cases r.atEnd.truthy <;> simp <;> omega

/-- The number for how two ranks compare is the sign of their difference. -/
theorem ofOrdering_compare (i j : Int) :
    (Value.ofOrdering (compare i j) : Value ω) = .number (Number.ofInt (i - j).sign) := by
  rcases Int.lt_trichotomy i j with h | rfl | h
  · rw [Std.compare_eq_lt.mpr h, Int.sign_eq_neg_one_of_neg (by omega)]
    rfl
  · rw [Std.compare_self, Int.sub_self]
    rfl
  · rw [Std.compare_eq_gt.mpr h, Int.sign_eq_one_of_pos (by omega)]
    rfl

section Ranks

variable [DecidableEq ω] [Objects ω] {r : ReferenceOrder ω} {key : Value ω} {p : Option Nat}

theorem indexOf_of_position (h : r.position? key = .ok p) :
    r.indexOf key = .ok (p.elim (-1) fun i => (i : Int)) := by
  rw [indexOf, h]
  cases p <;> rfl

theorem rank_of_position (h : r.position? key = .ok p) :
    r.rank key = .ok (p.elim r.missRank fun i => (i : Int)) := by
  rw [rank, h]
  cases p <;> rfl

/-- A key that has a rank has a position, or is found to have none. -/
theorem position_of_rank {i : Int} (h : r.rank key = .ok i) :
    ∃ p, r.position? key = .ok p ∧ i = p.elim r.missRank fun i => (i : Int) := by
  cases hp : r.position? key with
  | error fault =>
      rw [rank, hp] at h
      cases h
  | ok p =>
      rw [rank_of_position hp, Except.ok.injEq] at h
      exact ⟨p, rfl, h.symm⟩

/-- **Keys rank by their first match.** A key whose equality, if it brings one, answers on the
entries is found at the first entry that matches it, or else at -1; its rank is that position, or
else the rank of the keys that are not found. These all rank after the others with the flag and
before them without it, and the comparator gives the sign of the difference of two ranks. -/
theorem ranks_by_first_match {m : Type → Type} [Monad m] [MonadExceptOf (Fault ω) m]
    (atEnd : Value ω) (entries : List (Value ω)) :
    let r := make atEnd entries
    (∀ key, EqualityAnswers key entries → ∃ p, FirstMatch key entries p ∧
      r.indexOf key = .ok (p.elim (-1) fun i => (i : Int)) ∧
      r.rank key = .ok (p.elim (if atEnd.truthy then (entries.length : Int) else -1)
        fun i => (i : Int))) ∧
    ∀ a b i j, r.rank a = .ok i → r.rank b = .ok j →
      (r.indexOf a = .ok (-1) → r.indexOf b ≠ .ok (-1) →
        if atEnd.truthy then j < i else i < j) ∧
      (r.comparator : Comparator m ω) a b = pure (.number (Number.ofInt (i - j).sign)) := by
  intro r
  refine ⟨fun key hkey => ?_, fun a b i j ha hb => ⟨fun hmiss hhit => ?_, ?_⟩⟩
  · obtain ⟨p, hp⟩ := exists_position (r := r) hkey
    exact ⟨p, firstMatch_of_position hp, indexOf_of_position hp, rank_of_position hp⟩
  · obtain ⟨p, hp, rfl⟩ := position_of_rank ha
    obtain ⟨q, hq, rfl⟩ := position_of_rank hb
    rw [indexOf_of_position hp] at hmiss
    rw [indexOf_of_position hq] at hhit
    cases p with
    | some k =>
        simp only [Option.elim_some, Except.ok.injEq] at hmiss
        omega
    | none =>
        cases q with
        | none => exact absurd rfl hhit
        | some k => exact missRank_outside (r := r) (firstMatch_of_position hq).1
  · show MonadExcept.ofExcept (r.compareKeys a b) = _
    rw [compareKeys_of_rank ha hb, ofOrdering_compare]
    rfl

end Ranks

end ReferenceOrder

/-- Codes, of which two are equal, and zeros of both signs: keys of either kind have the position of
the first entry, and keys that are not found rank last. -/
theorem ReferenceOrder.ranks_by_first_match_for_codes_and_zeros :
    let catalog : Catalog := #[.ofNature none (.code (.text "b")),
      .ofNature none (.code (.text "a")), .ofNature none (.code (.text "a"))]
    let _ : Objects Item := catalog.objects
    let entries : List (Value Item) :=
      [.object ⟨0⟩, .object ⟨1⟩, .number 0, .object ⟨2⟩, .number (-0)]
    let r := make (.bool true) entries
    let c : Comparator (Except (Fault Item)) Item := r.comparator
    EqualityAnswers (.object ⟨2⟩) entries ∧ EqualityAnswers (.number (-0)) entries ∧
      (∃ p, FirstMatch (.object ⟨2⟩) entries p ∧
        r.indexOf (.object ⟨2⟩) = .ok (p.elim (-1) fun i => (i : Int))) ∧
      (∃ p, FirstMatch (.number (-0)) entries p ∧
        r.rank (.number (-0)) = .ok (p.elim 5 fun i => (i : Int))) ∧
      r.rank (.object ⟨2⟩) = .ok 1 ∧ r.rank .null = .ok 5 ∧
      c (.object ⟨2⟩) .null = .ok (.number (-1)) := by
  intro catalog _ entries r c
  have hcode : EqualityAnswers (.object ⟨2⟩) entries := by
    intro accepts haccepts w hw
    cases haccepts
    simp only [entries, List.mem_cons, List.not_mem_nil, or_false] at hw
    rcases hw with rfl | rfl | rfl | rfl | rfl <;> exact ⟨_, rfl⟩
  have hzero : EqualityAnswers (.number (-0)) entries := by
    intro accepts haccepts
    cases haccepts
  have hcodeRank : r.rank (.object ⟨2⟩) = .ok 1 := rfl
  have hnullRank : r.rank .null = .ok 5 := rfl
  obtain ⟨hkeys, hranks⟩ :=
    ranks_by_first_match (m := Except (Fault Item)) (.bool true) entries
  obtain ⟨p, hp, hcodeIndex, -⟩ := hkeys _ hcode
  obtain ⟨q, hq, -, hzeroRank⟩ := hkeys _ hzero
  exact ⟨hcode, hzero, ⟨p, hp, hcodeIndex⟩, ⟨q, hq, hzeroRank⟩, hcodeRank, hnullRank,
    (hranks _ _ _ _ hcodeRank hnullRank).2⟩

end Arrange
