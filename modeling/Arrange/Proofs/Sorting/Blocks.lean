import Arrange.Proofs.Comparator.Position
import Arrange.Proofs.Sorting.Values

/-!
# Sorting by a reference sequence

To sort stably by ranks is to put the elements of each rank behind each other, rank after rank, each
block in the order of the list (`isStableSort_blocks`). The ranks of a reference order are its
positions, and one rank before or after them for the keys that are not found. So the sorted list is
made of a block for each position and one for the keys that are not found:
`sortBy_byReference_in_blocks`.
-/

set_option autoImplicit false

namespace Arrange

open Std Sorting

/-! ## Blocks -/

section Blocks

variable {α : Type}

/-- The elements of a list in blocks, one for each of the given ranks. -/
def blocks (rank : α → Int) (ranks : List Int) (xs : List α) : List α :=
  ranks.flatMap fun r => xs.filter fun x => rank x == r

variable {rank : α → Int} {ranks : List Int} {xs : List α}

/-- Each rank has one block. -/
theorem filter_blocks (hranks : ranks.Nodup) (r : Int) :
    (blocks rank ranks xs).filter (fun x => rank x == r)
      = if r ∈ ranks then xs.filter fun x => rank x == r else [] := by
  induction ranks with
  | nil => rfl
  | cons s ranks ih =>
      obtain ⟨hs, hranks⟩ := List.nodup_cons.mp hranks
      show ((xs.filter fun x => rank x == s) ++ blocks rank ranks xs).filter _ = _
      rw [List.filter_append, ih hranks, List.filter_filter]
      by_cases hrs : r = s
      · subst hrs
        simp [hs]
      · have hnone : (xs.filter fun x => rank x == r && rank x == s) = [] := by
          apply List.filter_eq_nil_iff.mpr
          intro x _
          simp only [Bool.and_eq_true, beq_iff_eq]
          rintro ⟨hr, hs⟩
          exact hrs (hr.symm.trans hs)
        simp [hnone, hrs]

theorem tied_compareOn (a : α) :
    tied (compareOn rank) a xs = xs.filter fun x => rank x == rank a := by
  apply List.filter_congr
  intro x _
  rw [Bool.eq_iff_iff, beq_iff_eq, beq_iff_eq]
  show compare (rank a) (rank x) = .eq ↔ _
  rw [LawfulEqCmp.compare_eq_iff_eq]
  exact eq_comm

/-- Blocks in the order of their ranks are the stable sort by rank. -/
theorem isStableSort_blocks (hranks : ranks.Pairwise (· < ·)) (hall : ∀ x ∈ xs, rank x ∈ ranks) :
    IsStableSort (compareOn rank) (blocks rank ranks xs) xs := by
  have hrank : ∀ r, ∀ x ∈ xs.filter (fun x => rank x == r), rank x = r := by simp
  refine isStableSort_iff_rearranges.mpr ⟨?_, fun a => ?_⟩
  · refine List.pairwise_flatMap.mpr ⟨fun r _ => ?_, hranks.imp fun {r s} hrs x hx y hy => ?_⟩
    · refine List.pairwise_of_forall_mem_list fun x hx y hy => ?_
      show (compare (rank x) (rank y)).isLE
      rw [hrank r x hx, hrank r y hy, Std.compare_self]
      rfl
    · show (compare (rank x) (rank y)).isLE
      rw [hrank r x hx, hrank s y hy, Std.compare_eq_lt.mpr hrs]
      rfl
  · rw [tied_compareOn, tied_compareOn, filter_blocks (hranks.imp fun h => h.ne)]
    by_cases ha : rank a ∈ ranks
    · rw [if_pos ha]
    · -- no element has a rank without a block
      rw [if_neg ha]
      symm
      apply List.filter_eq_nil_iff.mpr
      intro x hx heq
      exact ha (beq_iff_eq.mp heq ▸ hall x hx)

end Blocks

/-! ## The ranks of a reference order -/

namespace ReferenceOrder

variable {ω : Type} {r : ReferenceOrder ω}

/-- The ranks that keys can have, in their order. -/
def ranks (r : ReferenceOrder ω) : List Int :=
  let positions := (List.range r.keys.length).map Int.ofNat
  if r.atEnd.truthy then positions ++ [r.missRank] else r.missRank :: positions

theorem missRank_ne {i : Nat} (h : i < r.keys.length) : r.missRank ≠ i := by
  have houtside := missRank_outside h
  split at houtside <;> omega

theorem mem_ranks_of_position {p : Option Nat} (h : ∀ i, p = some i → i < r.keys.length) :
    p.elim r.missRank (fun i => (i : Int)) ∈ r.ranks := by
  unfold ranks
  cases p with
  | none => cases r.atEnd.truthy <;> simp
  | some i =>
      have hi : i < r.keys.length := h i rfl
      cases r.atEnd.truthy <;> simp [hi]

theorem ranks_pairwise (r : ReferenceOrder ω) : r.ranks.Pairwise (· < ·) := by
  have hpositions : ((List.range r.keys.length).map Int.ofNat).Pairwise (· < ·) :=
    List.pairwise_map.mpr (List.pairwise_lt_range.imp Int.ofNat_lt.mpr)
  have houtside (i : Nat) (hi : i < r.keys.length) := missRank_outside (r := r) hi
  unfold ranks
  cases hlast : r.atEnd.truthy with
  | true =>
      simp only [hlast, if_true] at houtside ⊢
      refine List.pairwise_append.mpr ⟨hpositions, List.pairwise_singleton _ _, ?_⟩
      simpa using houtside
  | false =>
      simp only [hlast, Bool.false_eq_true, if_false] at houtside ⊢
      refine List.pairwise_cons.mpr ⟨?_, hpositions⟩
      simpa using houtside

/-- Where the rank of each element goes by its position, there is a block for each position and one
for the elements that have none. -/
theorem blocks_ranks {α : Type} {rank : α → Int} {position : α → Option Nat} {xs : List α}
    (hrank : ∀ x ∈ xs, rank x = (position x).elim r.missRank fun i => (i : Int))
    (hposition : ∀ x ∈ xs, ∀ i, position x = some i → i < r.keys.length) :
    let found := (List.range r.keys.length).flatMap fun i => xs.filter (position · == some i)
    let missing := xs.filter (position · == none)
    blocks rank r.ranks xs = if r.atEnd.truthy then found ++ missing else missing ++ found := by
  intro found missing
  have hfound : ((List.range r.keys.length).map Int.ofNat).flatMap
      (fun s => xs.filter fun x => rank x == s) = found := by
    rw [List.flatMap_map]
    refine List.flatMap_congr fun i hi => List.filter_congr fun x hx => ?_
    have hne : r.missRank ≠ i := missRank_ne (List.mem_range.mp hi)
    rw [hrank x hx]
    cases position x with
    | none => simp [hne]
    | some j =>
        rw [Bool.eq_iff_iff]
        simp
  have hmissing : (xs.filter fun x => rank x == r.missRank) = missing := by
    refine List.filter_congr fun x hx => ?_
    rw [hrank x hx]
    cases hp : position x with
    | none => simp
    | some i => simp [(missRank_ne (hposition x hx i hp)).symm]
  unfold blocks ranks
  cases r.atEnd.truthy <;> simp [hfound, hmissing]

end ReferenceOrder

/-! ## Sorting values by a reference sequence -/

open ReferenceOrder

variable {ω : Type} {m : Type → Type} [Monad m] [LawfulMonad m] [MonadExceptOf (Fault ω) m]
  [Objects ω]

/-- The stable sort of values of which none is `undefined` is what sorting them gives. -/
theorem sortValues_of_isStableSort {c : Comparator m ω} {sign : Value ω → Value ω → Ordering}
    {values sorted : List (Value ω)} (hdefined : ∀ v ∈ values, v.isUndefined = false)
    (horder : IsOrderOn sign {v | v ∈ values}) (hc : c.AnswersBy sign {v | v ∈ values})
    (h : IsStableSort sign sorted values) : sortValues c values = pure sorted := by
  have hall : values.filter (fun v => !v.isUndefined) = values :=
    List.filter_eq_self.mpr (by simpa using hdefined)
  have hnone : values.filter Value.isUndefined = [] :=
    List.filter_eq_nil_iff.mpr (by simpa using hdefined)
  have hsame : definedIn values = {v | v ∈ values} := by rw [definedIn_eq, hall]
  obtain ⟨sorted', hsorted, hsort⟩ := exists_sortValues_eq (hsame ▸ horder) (hsame ▸ hc)
  rw [hall] at hsorted
  rw [hsort, hnone, List.append_nil, hsorted.unique horder h]

variable [DecidableEq ω] {key : Key m ω} {k : Value ω → Value ω} {values entries : List (Value ω)}

/-- Values whose keys have positions are sorted into blocks. -/
theorem sortValues_of_positions {r : ReferenceOrder ω} {position : Value ω → Option Nat}
    (hdefined : ∀ v ∈ values, v.isUndefined = false) (hkey : ∀ v ∈ values, key v = pure (k v))
    (hequality : ∀ v ∈ values, EqualityAnswers (k v) r.keys)
    (hposition : ∀ v ∈ values, r.position? (k v) = .ok (position v))
    (hlt : ∀ v ∈ values, ∀ i, position v = some i → i < r.keys.length) :
    let found := (List.range r.keys.length).flatMap fun i => values.filter (position · == some i)
    let missing := values.filter (position · == none)
    sortValues (Comparator.onKey key r.comparator) values
      = pure (if r.atEnd.truthy then found ++ missing else missing ++ found) := by
  have hrank : ∀ v ∈ values,
      r.rankOf (k v) = (position v).elim r.missRank fun i => (i : Int) := by
    intro v hv
    rw [rankOf, rank_of_position (hposition v hv)]
    rfl
  have hcompares : (r.comparator : Comparator m ω).AnswersBy
      (fun a b => compare (r.rankOf a) (r.rankOf b)) (k '' {v | v ∈ values}) := by
    apply comparator_answersBy
    rintro _ ⟨v, hv, rfl⟩
    exact hequality v hv
  intro found missing
  rw [← blocks_ranks hrank hlt]
  apply sortValues_of_isStableSort hdefined
  · exact (isOrderOn_rankOf r Set.univ).comap k fun _ _ => trivial
  · exact Comparator.AnswersBy.onKey hkey hcompares
  · refine isStableSort_blocks r.ranks_pairwise fun v hv => ?_
    rw [hrank v hv]
    exact mem_ranks_of_position (hlt v hv)

/-- **Sorting by a reference sequence makes blocks.** For values that are not `undefined` and keys
that are extracted without failing, whose equalities, if they bring one, answer on the entries: the
sorted list has a block for each entry in turn, of the values whose key has its first match there,
and one of the values whose keys match no entry, which stands behind the others with the flag and in
front of them without it. In each block the values keep their order. -/
theorem sortBy_byReference_in_blocks (atEnd? : Option Bool)
    (hdefined : ∀ v ∈ values, v.isUndefined = false) (hkey : ∀ v ∈ values, key v = pure (k v))
    (hequality : ∀ v ∈ values, EqualityAnswers (k v) entries) :
    ∃ (c : Comparator m ω) (position : Value ω → Option Nat),
      byReference (.function key) (atEnd?.map .bool) (some entries) = .ok c ∧
      (∀ v ∈ values, FirstMatch (k v) entries (position v)) ∧
      let found := (List.range entries.length).flatMap fun i => values.filter (position · == some i)
      let missing := values.filter (position · == none)
      sortBy (.function c) values
        = pure (if atEnd?.getD false then found ++ missing else missing ++ found) := by
  let r : ReferenceOrder ω := make (.bool (atEnd?.getD false)) entries
  have hfound : ∀ v ∈ values, ∃ p, r.position? (k v) = .ok p :=
    fun v hv => exists_position (hequality v hv)
  choose! position hposition using hfound
  have hfirst : ∀ v ∈ values, FirstMatch (k v) entries (position v) :=
    fun v hv => firstMatch_of_position (hposition v hv)
  have hlt : ∀ v ∈ values, ∀ i, position v = some i → i < r.keys.length := by
    intro v hv i hi
    have hmatch := hfirst v hv
    rw [hi] at hmatch
    exact hmatch.1
  exact ⟨_, position, byReference_eq key atEnd? entries, hfirst,
    sortValues_of_positions hdefined hkey hequality hposition hlt⟩

/-- Codes with an equality of their own, zeros of both signs, entries that are there twice and
values that are not found, which rank last. -/
theorem sortBy_byReference_in_blocks_for_codes_and_zeros :
    let catalog : Catalog := #[.ofNature none (.code (.text "b")),
      .ofNature none (.code (.text "a")), .ofNature none (.code (.text "a"))]
    let _ : Objects Item := catalog.objects
    let values : List (Value Item) :=
      [.null, .object ⟨2⟩, .number (-0), .object ⟨0⟩, .text "q", .object ⟨1⟩, .number 0]
    let entries : List (Value Item) := [.object ⟨1⟩, .number 0, .object ⟨2⟩, .object ⟨0⟩, .number 0]
    let key : Key (Except (Fault Item)) Item := Key.identity
    (∀ v ∈ values, v.isUndefined = false) ∧ (∀ v ∈ values, key v = pure v) ∧
      (∀ v ∈ values, EqualityAnswers v entries) ∧
      ∃ c, byReference (.function key) (some (.bool true)) (some entries) = .ok c ∧
        sortBy (.function c) values = .ok
          [.object ⟨2⟩, .object ⟨1⟩, .number (-0), .number 0, .object ⟨0⟩, .null, .text "q"] := by
  intro catalog _ values entries key
  have hdefined : ∀ v ∈ values, v.isUndefined = false := by decide
  have hkey : ∀ v ∈ values, key v = pure v := fun _ _ => rfl
  have hequality : ∀ v ∈ values, EqualityAnswers v entries := by
    intro v hv accepts haccepts w hw
    simp only [values, List.mem_cons, List.not_mem_nil, or_false] at hv
    simp only [entries, List.mem_cons, List.not_mem_nil, or_false] at hw
    rcases hv with rfl | rfl | rfl | rfl | rfl | rfl | rfl <;> cases haccepts <;>
      rcases hw with rfl | rfl | rfl | rfl | rfl <;> exact ⟨_, rfl⟩
  obtain ⟨c, position, hc, hfirst, hsort⟩ :=
    sortBy_byReference_in_blocks (m := Except (Fault Item)) (some true) hdefined hkey hequality
  let found (v : Value Item) : Option Nat :=
    match (make (.bool true) entries).position? v with
    | .ok p => p
    | .error _ => none
  have hfound : ∀ v ∈ values, FirstMatch v entries (found v) := by
    intro v hv
    simp only [values, List.mem_cons, List.not_mem_nil, or_false] at hv
    rcases hv with rfl | rfl | rfl | rfl | rfl | rfl | rfl <;>
      exact firstMatch_of_position (show (make (.bool true) entries).position? _ = .ok _ from rfl)
  have hposition : ∀ v ∈ values, position v = found v :=
    fun v hv => (hfirst v hv).unique (hfound v hv)
  have hblock (p : Option Nat) :
      values.filter (position · == p) = values.filter (found · == p) :=
    List.filter_congr fun v hv => by rw [hposition v hv]
  refine ⟨hdefined, hkey, hequality, c, hc, ?_⟩
  rw [hsort]
  simp only [hblock]
  rfl

end Arrange
