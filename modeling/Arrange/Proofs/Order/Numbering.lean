import Arrange.Catalog
import Arrange.Proofs.Order.Registry

/-!
# The numbers of the identity table

The objects that are hashed by identity are numbered in the order in which they first came to be
hashed (`IdentityTable.NumbersByFirstHashing`): this is read off what the table registers. Two
different objects that bring no method, and are no dates, are told apart by their numbers alone
(`compareUniversal_of_methodless`). Main statement:
`IdentityTable.after_numbers_by_first_hashing`.
-/

set_option autoImplicit false

namespace Arrange

variable {ω : Type} [Objects ω]

/-! ## Numbers -/

section Numbers

variable [DecidableEq ω]

/-- The numbers of a table follow a history of hashed values. -/
structure IdentityTable.NumbersByFirstHashing (t : IdentityTable ω) (history : List (Value ω)) :
    Prop where
  /-- Numbers are given from 1 on, and all are below the one that comes next. -/
  bounds : ∀ v k, t.find? v = some k → 1 ≤ k ∧ k < t.next
  /-- Each of these numbers is given to exactly one value. -/
  given : ∀ k, 1 ≤ k → k < t.next → ∃! v, t.find? v = some k
  /-- The values of the history that are hashed by identity have a number, and no others. -/
  numbered_iff : ∀ v, (∃ k, t.find? v = some k) ↔ v ∈ history ∧ HashedByIdentity v
  /-- The lower number is that of the value that was hashed first. -/
  order : ∀ v w i j, t.find? v = some i → t.find? w = some j →
    (i < j ↔ history.idxOf v < history.idxOf w)

theorem IdentityTable.Registers.numbers {t : IdentityTable ω} {history : List (Value ω)}
    (h : t.Registers history) : t.NumbersByFirstHashing history := by
  have hfind {v : Value ω} {k : Nat} : t.find? v = some k ↔ _ := find?_eq_some_iff h.nodup
  -- of two places the first one holds the value that was hashed first
  have hplaces {i j : Nat} (hi : i < t.seen.length) (hj : j < t.seen.length) (hij : i < j) :
      history.idxOf t.seen[i] < history.idxOf t.seen[j] :=
    List.pairwise_iff_getElem.mp h.inOrder i j hi hj hij
  constructor
  · intro v k hk
    obtain ⟨i, hi, -, rfl⟩ := hfind.mp hk
    exact ⟨Nat.le_add_left 1 i, Nat.succ_lt_succ hi⟩
  · intro k hlow hhigh
    have hk : k - 1 < t.seen.length := by
      rw [next] at hhigh
      omega
    refine ⟨t.seen[k - 1], hfind.mpr ⟨k - 1, hk, rfl, by omega⟩, ?_⟩
    intro v hv
    obtain ⟨i, hi, rfl, rfl⟩ := hfind.mp hv
    rfl
  · intro v
    rw [← h.mem_iff, ← Option.ne_none_iff_exists', Ne, find?_eq_none_iff, not_not]
  · intro v w i' j' hv hw
    obtain ⟨i, hi, rfl, rfl⟩ := hfind.mp hv
    obtain ⟨j, hj, rfl, rfl⟩ := hfind.mp hw
    rw [Nat.add_lt_add_iff_right]
    constructor
    · exact hplaces hi hj
    · intro hlt
      rcases Nat.lt_trichotomy i j with hij | rfl | hji
      · exact hij
      · exact absurd hlt (Nat.lt_irrefl _)
      · exact absurd (hplaces hj hi hji) (Nat.lt_asymm hlt)

end Numbers

/-! ## Objects without methods -/

/-- An object that brings none of the methods that a comparison asks for, and is no date. -/
structure Methodless (v : Value ω) : Prop where
  isObject : v.isPrimitive = false
  noDate : v.isDate = false
  noOrder : bringsOrder v = false
  noEquality : bringsEquality v = false
  noHash : bringsHash v = false

namespace Methodless

section

variable {v : Value ω} (h : Methodless v)

include h

theorem isAbsent : v.isAbsent = false := by
  have hobject := h.isObject
  cases v <;> first | rfl | cases hobject

theorem orderClass? : orderClass? v = none := by
  have hkind : primitiveKind? v = none := by
    have hobject := h.isObject
    cases v <;> first | rfl | cases hobject
  simp [Arrange.orderClass?, h.noDate, h.noOrder, hkind]

theorem ownEquality? : v.ownEquality? = none :=
  Option.not_isSome_iff_eq_none.mp (ne_true_of_eq_false h.noEquality)

theorem ownHash? : v.ownHash? = none :=
  Option.not_isSome_iff_eq_none.mp (ne_true_of_eq_false h.noHash)

theorem fixedHash? : v.fixedHash? = none :=
  (fixedHash?_eq_none_iff v).mpr ⟨h.isObject, h.noHash⟩

theorem acceptsAsEqual (w : Value ω) : acceptsAsEqual v w = .ok false := by
  rw [Arrange.acceptsAsEqual, h.ownEquality?]

end

variable {a b : Value ω} (ha : Methodless a) (hb : Methodless b)

include ha hb

theorem passedOver (hab : a ≠ b) : PassedOver a b := by
  refine ⟨hab, ⟨ha.isAbsent, hb.isAbsent⟩, ?_⟩
  by_contra hcommon
  obtain ⟨c, hc, -⟩ := (haveCommonOrder_iff a b).mp (Bool.eq_true_of_not_eq_false hcommon)
  rw [ha.orderClass?] at hc
  cases hc

theorem obliging : Obliging (fun _ _ => .eq) ({a, b} : Set (Value ω)) := by
  apply Obliging.of_methodless
  rintro v (rfl | rfl)
  · exact ⟨by simp [ha.orderClass?], ha.ownEquality?, ha.ownHash?⟩
  · exact ⟨by simp [hb.orderClass?], hb.ownEquality?, hb.ownHash?⟩

variable [DecidableEq ω]

theorem hashes_compare (hab : a ≠ b) (absentLast : Bool) :
    (HashingCall.compare a b absentLast).hashes = [a, b] := by
  have himmediate : immediate? a b absentLast = none := immediate?_eq_none_iff.mpr
    ⟨ha.passedOver hb hab, ha.acceptsAsEqual b, hb.acceptsAsEqual a⟩
  rw [HashingCall.hashes, himmediate, ha.fixedHash?]

/-- Two different objects without methods are hashed, and compare by their hash codes. -/
theorem compareUniversal_exec (hab : a ≠ b) (absentLast : Bool) (t : IdentityTable ω) :
    (compareUniversal a b absentLast).exec t
      = (.ok (.ofOrdering ((t.hashed a b).order a b)), t.hashed a b) := by
  have haccepts : eitherAccepts a b = .ok false :=
    eitherAccepts_eq_false_iff.mpr ⟨ha.acceptsAsEqual b, hb.acceptsAsEqual a⟩
  calc (compareUniversal a b absentLast).exec t
      = Hashing.exec (compareHashed a b >>= fun o => pure (Value.ofOrdering o)) t := by
        rw [compareUniversal_of_passedOver (ha.passedOver hb hab), compareByMethods,
          Hashing.exec_bind, Hashing.exec_ofExcept, haccepts]
        rfl
    _ = (.ok (.ofOrdering ((t.hashed a b).order a b)), t.hashed a b) := by
        rw [Hashing.exec_bind, (ha.obliging hb).compareHashed_exec (by simp) (by simp)]
        rfl

end Methodless

/-- Two different objects without methods compare by the numbers that they have afterwards. -/
theorem compareUniversal_of_methodless [DecidableEq ω] {a b : Value ω} (ha : Methodless a)
    (hb : Methodless b) (hab : a ≠ b) (absentLast : Bool) (t : IdentityTable ω) :
    ∃ (t' : IdentityTable ω) (i j : Nat), t'.find? a = some i ∧ t'.find? b = some j ∧ i ≠ j ∧
      (compareUniversal a b absentLast).exec t = (.ok (.ofOrdering (compare i j)), t') := by
  obtain ⟨hknows, hknows'⟩ := t.knows_hashed a b
  obtain ⟨i, hi⟩ := Option.isSome_iff_exists.mp (hknows ha.fixedHash?)
  obtain ⟨j, hj⟩ := Option.isSome_iff_exists.mp (hknows' hb.fixedHash?)
  have hij : i ≠ j := by
    rintro rfl
    exact hab (IdentityTable.find?_inj hi hj)
  refine ⟨t.hashed a b, i, j, hi, hj, hij, ?_⟩
  -- the numbers differ, so that the texts are not asked for
  have horder : (t.hashed a b).order a b = compare i j := by
    rw [IdentityTable.order, IdentityTable.code_of_find ha.fixedHash? hi,
      IdentityTable.code_of_find hb.fixedHash? hj, Number.compare_natCast]
    cases hcompare : compare i j with
    | eq => exact absurd (compare_eq_iff_eq.mp hcompare) hij
    | lt => rfl
    | gt => rfl
  rw [ha.compareUniversal_exec hb hab, horder]

/-! ## Runs -/

section Runs

variable [DecidableEq ω]

/-- **The identity table numbers objects in the order in which they are first hashed**, after any
calls from the empty table, the first value of a comparison before the second. A number stays for
good and is the hash code of its object. A comparison only adds values that are passed over and of
which neither accepts the other. Two different objects without methods never tie: the one that was
hashed first comes first. -/
theorem IdentityTable.after_numbers_by_first_hashing (calls : List (HashingCall ω)) :
    let t : IdentityTable ω := (∅ : IdentityTable ω).after calls
    let history : List (Value ω) := calls.flatMap HashingCall.hashes
    t.NumbersByFirstHashing history ∧
    (∀ v k, t.find? v = some k → ∀ later, (t.after later).find? v = some k ∧
      (hashValue v).exec (t.after later) = (.ok (.identity k), t.after later)) ∧
    (∀ a b absentLast, ((compareUniversal a b absentLast).exec t).2 ≠ t →
      PassedOver a b ∧ acceptsAsEqual a b = .ok false ∧ acceptsAsEqual b a = .ok false) ∧
    (∀ a b absentLast, Methodless a → Methodless b → a ≠ b →
      let history' := history ++ [a, b]
      let o := compare (history'.idxOf a) (history'.idxOf b)
      o ≠ .eq ∧ (compareUniversal a b absentLast).exec t
        = (.ok (.ofOrdering o), t.after [.compare a b absentLast])) := by
  intro t history
  have hregisters : t.Registers history := registers_empty.calls calls
  have hnumbers := hregisters.numbers
  refine ⟨hnumbers, ?_, ?_, ?_⟩
  · intro v k hk later
    have hlater : (t.after later).find? v = some k := find?_of_le (t.le_after later) hk
    obtain ⟨-, hidentity⟩ := (hnumbers.numbered_iff v).mp ⟨k, hk⟩
    refine ⟨hlater, ?_⟩
    rw [hashValue_exec, (fixedHash?_eq_none_iff v).mpr hidentity, enter_of_find hlater, hashOf,
      hlater]
    rfl
  · intro a b absentLast hgrows
    apply immediate?_eq_none_iff.mp
    rw [Option.eq_none_iff_forall_ne_some]
    intro r hr
    rw [compareUniversal_exec, hr] at hgrows
    exact hgrows rfl
  · intro a b absentLast ha hb hab history' o
    obtain ⟨t', i, j, hi, hj, hij, hexec⟩ := compareUniversal_of_methodless ha hb hab absentLast t
    have htable : t.after [.compare a b absentLast] = t' := congrArg Prod.snd hexec
    have hregisters' : t'.Registers history' := by
      have hcall := hregisters.call (.compare a b absentLast)
      rw [ha.hashes_compare hb hab] at hcall
      rwa [← htable]
    -- both have a number now, and the numbers are in the order of the history
    have horder := hregisters'.numbers.order
    have ho : o = compare i j := by
      rcases Nat.lt_or_gt_of_ne hij with hlt | hgt
      · rw [compare_lt_iff_lt.mpr hlt]
        exact compare_lt_iff_lt.mpr ((horder a b i j hi hj).mp hlt)
      · rw [compare_gt_iff_gt.mpr hgt]
        exact compare_gt_iff_gt.mpr ((horder b a j i hj hi).mp hgt)
    rw [htable, ho]
    exact ⟨fun heq => hij (compare_eq_iff_eq.mp heq), hexec⟩

end Runs

/-- A run that hashes an object with a hash code of its own, and compares a record with a function.
The record is hashed first and the function, whose hash code does not count, second, so that each of
them comes before a record that was not hashed yet. -/
theorem IdentityTable.after_numbers_by_first_hashing_for_records :
    let catalog : Catalog := #[
      .ofNature none .record,
      ⟨none, .function "f", [], none, none, none, some (.returns (.number 7)), none⟩,
      .ofNature none (.tagged (.number 1) (.text "t")),
      .ofNature none .record]
    let _ : Objects Item := catalog.objects
    let a : Value Item := .object ⟨0⟩
    let f : Value Item := .object ⟨1⟩
    let tagged : Value Item := .object ⟨2⟩
    let b : Value Item := .object ⟨3⟩
    let t : IdentityTable Item := (∅ : IdentityTable Item).after [.hash tagged, .compare b f false]
    t.NumbersByFirstHashing [tagged, b, f] ∧ t.find? f = some 2 ∧
      (t.after [.compare tagged a true, .hash a]).find? f = some 2 ∧
      ((compareUniversal tagged a true).exec t).2 ≠ t ∧ PassedOver tagged a ∧
      acceptsAsEqual tagged a = .ok false ∧ acceptsAsEqual a tagged = .ok false ∧
      Methodless a ∧ Methodless b ∧ a ≠ b ∧
      (compareUniversal a b false).exec t = (.ok (.ofOrdering .gt), ⟨[b, f, a]⟩) := by
  intro catalog _ a f tagged b t
  obtain ⟨hnumbers, hstays, hgrows, hmethodless⟩ :=
    IdentityTable.after_numbers_by_first_hashing [.hash tagged, .compare b f false]
  have hf : t.find? f = some 2 := rfl
  have htable : ((compareUniversal tagged a true).exec t).2 ≠ t := by
    intro heq
    exact absurd (congrArg IdentityTable.next heq) (by decide)
  obtain ⟨hpassed, haccepts, haccepts'⟩ := hgrows tagged a true htable
  have ha : Methodless a := ⟨rfl, rfl, rfl, rfl, rfl⟩
  have hb : Methodless b := ⟨rfl, rfl, rfl, rfl, rfl⟩
  have hab : a ≠ b := by decide
  obtain ⟨-, hexec⟩ := hmethodless a b false ha hb hab
  exact ⟨hnumbers, hf, (hstays f 2 hf _).1, htable, hpassed, haccepts, haccepts', ha, hb, hab,
    hexec⟩

end Arrange
