import Arrange.Proofs.Order.Preorder
import Mathlib.Data.List.Chain

/-!
# Stable sorting

To sort a list stably is to put its elements in order and to leave those that tie in the order in
which they stand (`IsStableSort`). There is one way to do this (`IsStableSort.unique`), and to sort
by one order what another one has sorted is to sort by both, the other one breaking the ties of the
first (`IsStableSort.breakTies`).

What an algorithm does on the way is said with `Rearranges`: elements that tie with each other stand
in the same order before and after. So they do when lists are put behind each other
(`Rearranges.append`) and when lesser elements are put before greater ones
(`rearranges_append_comm`).
-/

set_option autoImplicit false

namespace Arrange

open Std

variable {α : Type}

/-! ## What sorting stably is -/

/-- The elements of a list that tie with a given one, in the order of the list. -/
def tied (sign : α → α → Ordering) (a : α) (xs : List α) : List α :=
  xs.filter fun b => sign a b == .eq

/-- `sorted` holds the elements of `xs`, each of them at most the next one, and those that tie stand
in the order of `xs`. -/
structure IsStableSort (sign : α → α → Ordering) (sorted xs : List α) : Prop where
  perm : sorted.Perm xs
  inOrder : sorted.IsChain fun a b => (sign a b).isLE
  ties : ∀ a ∈ xs, tied sign a sorted = tied sign a xs

section Tied

variable {sign : α → α → Ordering} {a b : α} {xs ys : List α}

theorem mem_tied : b ∈ tied sign a xs ↔ b ∈ xs ∧ sign a b = .eq := by
  simp [tied]

@[simp] theorem tied_nil : tied sign a [] = [] := rfl

@[simp] theorem tied_append : tied sign a (xs ++ ys) = tied sign a xs ++ tied sign a ys := by
  simp [tied]

theorem tied_cons_of_eq (h : sign a b = .eq) : tied sign a (b :: xs) = b :: tied sign a xs := by
  simp [tied, h]

theorem tied_cons_of_ne (h : sign a b ≠ .eq) : tied sign a (b :: xs) = tied sign a xs := by
  simp [tied, h]

theorem tied_eq_nil_iff : tied sign a xs = [] ↔ ∀ b ∈ xs, sign a b ≠ .eq := by
  simp [tied]

/-- Only how the elements compare with the given one matters. -/
theorem tied_congr {sign' : α → α → Ordering} (h : ∀ b ∈ xs, sign a b = sign' a b) :
    tied sign a xs = tied sign' a xs := by
  apply List.filter_congr
  intro b hb
  rw [h b hb]

theorem tied_comm (sign' : α → α → Ordering) :
    tied sign a (tied sign' a xs) = tied sign' a (tied sign a xs) := List.filter_comm ..

/-- What ties by an order whose ties another one breaks ties by both. -/
theorem tied_then (sign' : α → α → Ordering) :
    tied (fun a b => (sign a b).then (sign' a b)) a xs = tied sign a (tied sign' a xs) := by
  unfold tied
  rw [List.filter_filter]
  apply List.filter_congr
  intro b _
  show ((sign a b).then (sign' a b) == .eq) = _
  cases sign a b <;> cases sign' a b <;> rfl

end Tied

namespace Sorting

/-! ## Lists in order -/

/-- On the members of `D` the test says which of two elements is less, and does nothing else. -/
def GoesBy {m : Type → Type} [Monad m] (before : α → α → m Bool) (cmp : α → α → Ordering)
    (D : Set α) : Prop := ∀ a ∈ D, ∀ b ∈ D, before a b = pure (cmp a b == .lt)

/-- An element is at most another one unless that one is less. -/
theorem not_lt_eq_isLE {cmp : α → α → Ordering} [OrientedCmp cmp] (a b : α) :
    (!cmp b a == .lt) = (cmp a b).isLE := by
  have hswap : cmp b a = (cmp a b).swap := OrientedCmp.eq_swap
  rw [hswap]
  cases cmp a b <;> rfl

/-- Each element of the list is at most all that stand behind it. -/
def InOrder (cmp : α → α → Ordering) (xs : List α) : Prop :=
  xs.Pairwise fun a b => (cmp a b).isLE

/-- A list in order whose tied elements are in order by a second comparison. -/
theorem InOrder.then {cmp cmp' : α → α → Ordering} [ReflCmp cmp] {xs : List α}
    (h : InOrder cmp xs) (h' : ∀ a, InOrder cmp' (tied cmp a xs)) :
    InOrder (fun a b => (cmp a b).then (cmp' a b)) xs := by
  induction xs with
  | nil => exact List.Pairwise.nil
  | cons x xs ih =>
      obtain ⟨hx, hxs⟩ := List.pairwise_cons.mp h
      refine List.Pairwise.cons (fun b hb => ?_) (ih hxs fun a => ?_)
      · have hle : (cmp x b).isLE := hx b hb
        show ((cmp x b).then (cmp' x b)).isLE
        cases hcmp : cmp x b with
        | lt => rfl
        | gt => simp [hcmp] at hle
        | eq =>
            -- `x` leads the elements that tie with it, and `b` is one of them
            have htied := h' x
            rw [tied_cons_of_eq ReflCmp.compare_self] at htied
            exact (List.pairwise_cons.mp htied).1 b (mem_tied.mpr ⟨hb, hcmp⟩)
      · exact (h' a).sublist ((List.sublist_cons_self x xs).filter _)

/-! ## Rearranged lists -/

/-- `ys` holds the elements of `xs`, and those that tie with each other in the order of `xs`. -/
def Rearranges (cmp : α → α → Ordering) (ys xs : List α) : Prop :=
  ∀ a, tied cmp a ys = tied cmp a xs

section Rearranged

variable {cmp : α → α → Ordering} {xs ys zs xs' ys' : List α}

theorem Rearranges.refl (xs : List α) : Rearranges cmp xs xs := fun _ => rfl

theorem Rearranges.symm (h : Rearranges cmp ys xs) : Rearranges cmp xs ys := fun a => (h a).symm

theorem Rearranges.trans (h : Rearranges cmp zs ys) (h' : Rearranges cmp ys xs) :
    Rearranges cmp zs xs := fun a => (h a).trans (h' a)

theorem Rearranges.append (h : Rearranges cmp ys xs) (h' : Rearranges cmp ys' xs') :
    Rearranges cmp (ys ++ ys') (xs ++ xs') := by
  intro a
  rw [tied_append, tied_append, h a, h' a]

theorem Rearranges.cons (x : α) (h : Rearranges cmp ys xs) :
    Rearranges cmp (x :: ys) (x :: xs) := (Rearranges.refl [x]).append h

variable [TransCmp cmp]

/-- An element ties with itself, so that no element is lost and none comes in. -/
theorem Rearranges.perm (h : Rearranges cmp ys xs) : ys.Perm xs := by
  classical
  rw [List.perm_iff_count]
  intro a
  have hcount (l : List α) : (tied cmp a l).count a = l.count a :=
    List.count_filter (by simp [ReflCmp.compare_self])
  calc ys.count a = (tied cmp a ys).count a := (hcount ys).symm
    _ = (tied cmp a xs).count a := by rw [h a]
    _ = xs.count a := hcount xs

theorem Rearranges.mem_iff (h : Rearranges cmp ys xs) {x : α} : x ∈ ys ↔ x ∈ xs := h.perm.mem_iff

/-- A stretch of lesser elements may be put before the stretch in front of it. -/
theorem rearranges_append_comm (h : ∀ x ∈ xs, ∀ y ∈ ys, cmp y x = .lt) :
    Rearranges cmp (ys ++ xs) (xs ++ ys) := by
  intro a
  rw [tied_append, tied_append]
  by_cases hxs : ∀ x ∈ xs, cmp a x ≠ .eq
  · rw [tied_eq_nil_iff.mpr hxs, List.append_nil, List.nil_append]
  · -- what ties with an element of `xs` ties with none of `ys`
    simp only [ne_eq, not_forall, not_not] at hxs
    obtain ⟨x, hx, hax⟩ := hxs
    have hys : ∀ y ∈ ys, cmp a y ≠ .eq := by
      intro y hy hay
      have hyx : cmp y x = .eq := TransCmp.eq_trans (OrientedCmp.eq_comm.mp hay) hax
      rw [h x hx y hy] at hyx
      cases hyx
    rw [tied_eq_nil_iff.mpr hys, List.append_nil, List.nil_append]

/-- Elements of a list may be put before all others that are greater or stand behind them. -/
theorem rearranges_filter_append {leads : α → Bool}
    (h : xs.Pairwise fun x y => leads x = false → leads y = true → cmp y x = .lt) :
    Rearranges cmp (xs.filter leads ++ xs.filter fun x => !leads x) xs := by
  induction xs with
  | nil => exact Rearranges.refl []
  | cons x xs ih =>
      obtain ⟨hfollowing, hxs⟩ := List.pairwise_cons.mp h
      cases hx : leads x with
      | true =>
          rw [List.filter_cons_of_pos hx, List.filter_cons_of_neg (by simp [hx])]
          exact (ih hxs).cons x
      | false =>
          rw [List.filter_cons_of_neg (by simp [hx]), List.filter_cons_of_pos (by simp [hx])]
          have hless : ∀ z ∈ [x], ∀ y ∈ xs.filter leads, cmp y z = .lt := by
            intro z hz y hy
            obtain ⟨hmem, hy⟩ := List.mem_filter.mp hy
            rw [List.mem_singleton.mp hz]
            exact hfollowing y hmem hx hy
          have hpast : Rearranges cmp (xs.filter leads ++ [x] ++ xs.filter fun x => !leads x)
              ([x] ++ xs.filter leads ++ xs.filter fun x => !leads x) :=
            (rearranges_append_comm hless).append (Rearranges.refl _)
          rw [List.append_assoc] at hpast
          exact hpast.trans ((ih hxs).cons x)

/-- In order there is one arrangement only. -/
theorem Rearranges.eq_of_inOrder (h : Rearranges cmp ys xs) (hys : InOrder cmp ys)
    (hxs : InOrder cmp xs) : ys = xs := by
  induction ys generalizing xs with
  | nil => exact (List.perm_nil.mp h.perm.symm).symm
  | cons y ys ih =>
      cases xs with
      | nil => exact List.perm_nil.mp h.perm
      | cons x xs =>
          obtain ⟨hy, hys'⟩ := List.pairwise_cons.mp hys
          obtain ⟨hx, hxs'⟩ := List.pairwise_cons.mp hxs
          -- each of the two heads is at most the other one, so that they tie
          have hyx : (cmp y x).isLE := by
            rcases List.mem_cons.mp (h.mem_iff.mpr List.mem_cons_self) with rfl | hmem
            · exact ReflCmp.isLE_rfl
            · exact hy x hmem
          have hxy : (cmp x y).isLE := by
            rcases List.mem_cons.mp (h.mem_iff.mp List.mem_cons_self) with rfl | hmem
            · exact ReflCmp.isLE_rfl
            · exact hx y hmem
          have htie : cmp y x = .eq := OrientedCmp.isLE_antisymm hyx hxy
          have hhead := h y
          rw [tied_cons_of_eq ReflCmp.compare_self, tied_cons_of_eq htie] at hhead
          obtain ⟨rfl, -⟩ := List.cons.inj hhead
          have htail : Rearranges cmp ys xs := by
            intro a
            have ha := h a
            by_cases hay : cmp a y = .eq
            · rw [tied_cons_of_eq hay, tied_cons_of_eq hay] at ha
              exact (List.cons.inj ha).2
            · rwa [tied_cons_of_ne hay, tied_cons_of_ne hay] at ha
          rw [ih htail hys' hxs']

end Rearranged

end Sorting

/-! ## The stable sort -/

open Sorting

section TransCmp

variable {cmp : α → α → Ordering} [TransCmp cmp] {sorted xs : List α}

instance instTransIsLE : Trans (fun a b : α => (cmp a b).isLE = true)
    (fun a b => (cmp a b).isLE = true) (fun a b => (cmp a b).isLE = true) :=
  ⟨TransCmp.isLE_trans⟩

/-- A list in order that rearranges another one is its stable sort. -/
theorem isStableSort_iff_rearranges :
    IsStableSort cmp sorted xs ↔ InOrder cmp sorted ∧ Rearranges cmp sorted xs := by
  constructor
  · intro h
    refine ⟨h.inOrder.pairwise, fun a => ?_⟩
    by_cases ha : ∃ x ∈ xs, cmp a x = .eq
    · -- what ties with `a` is what ties with an element of the list
      obtain ⟨x, hx, hax⟩ := ha
      have hsame (l : List α) : tied cmp a l = tied cmp x l := by
        apply List.filter_congr
        intro b _
        rw [TransCmp.congr_left hax]
      rw [hsame, hsame, h.ties x hx]
    · have hnone : ∀ x ∈ xs, cmp a x ≠ .eq := fun x hx hax => ha ⟨x, hx, hax⟩
      rw [tied_eq_nil_iff.mpr hnone, tied_eq_nil_iff]
      exact fun x hx => hnone x (h.perm.mem_iff.mp hx)
  · rintro ⟨horder, h⟩
    exact ⟨h.perm, List.Pairwise.isChain horder, fun a _ => h a⟩

end TransCmp

namespace IsStableSort

variable {sign sign' : α → α → Ordering} {sorted sorted' xs ys : List α}

/-- Only how the elements of the list compare matters. -/
theorem congr (h : IsStableSort sign sorted xs) (hsign : ∀ a ∈ xs, ∀ b ∈ xs, sign a b = sign' a b) :
    IsStableSort sign' sorted xs := by
  have hmem : ∀ a ∈ sorted, a ∈ xs := fun a ha => h.perm.mem_iff.mp ha
  refine ⟨h.perm, ?_, fun a ha => ?_⟩
  · refine List.IsChain.imp_of_mem_imp ?_ h.inOrder
    intro a b ha hb hle
    rwa [← hsign a (hmem a ha) b (hmem b hb)]
  · rw [← tied_congr fun b hb => hsign a ha b hb, ← h.ties a ha]
    exact (tied_congr fun b hb => hsign a ha b (hmem b hb)).symm

/-- A list has one stable sort only. -/
theorem unique (horder : IsOrderOn sign {a | a ∈ xs}) (h : IsStableSort sign sorted xs)
    (h' : IsStableSort sign sorted' xs) : sorted = sorted' := by
  obtain ⟨cmp, _, hcmp⟩ := horder.exists_transCmp
  have hsign : ∀ a ∈ xs, ∀ b ∈ xs, sign a b = cmp a b := fun a ha b hb => (hcmp a ha b hb).symm
  obtain ⟨hin, hrearranges⟩ := isStableSort_iff_rearranges.mp (h.congr hsign)
  obtain ⟨hin', hrearranges'⟩ := isStableSort_iff_rearranges.mp (h'.congr hsign)
  exact (hrearranges.trans hrearranges'.symm).eq_of_inOrder hin hin'

/-- To sort by one order what another one has sorted is to sort by the first order, the other one
breaking its ties. -/
theorem breakTies (horder : IsOrderOn sign {a | a ∈ xs}) (horder' : IsOrderOn sign' {a | a ∈ xs})
    (h : IsStableSort sign' ys xs) (h' : IsStableSort sign sorted ys) :
    IsStableSort (fun a b => (sign a b).then (sign' a b)) sorted xs := by
  obtain ⟨cmp, _, hcmp⟩ := horder.exists_transCmp
  obtain ⟨cmp', _, hcmp'⟩ := horder'.exists_transCmp
  have hmem : ∀ a ∈ ys, a ∈ xs := fun a ha => h.perm.mem_iff.mp ha
  obtain ⟨hin', hrearranges'⟩ := isStableSort_iff_rearranges.mp
    (h.congr fun a ha b hb => (hcmp' a ha b hb).symm)
  obtain ⟨hin, hrearranges⟩ := isStableSort_iff_rearranges.mp
    (h'.congr fun a ha b hb => (hcmp a (hmem a ha) b (hmem b hb)).symm)
  have hboth : TransCmp fun a b => (cmp a b).then (cmp' a b) :=
    inferInstanceAs (TransCmp (compareLex cmp cmp'))
  have hsorted : IsStableSort (fun a b => (cmp a b).then (cmp' a b)) sorted xs := by
    rw [isStableSort_iff_rearranges]
    constructor
    · apply hin.then
      intro a
      rw [hrearranges a]
      exact hin'.filter _
    · intro a
      calc tied (fun a b => (cmp a b).then (cmp' a b)) a sorted
          = tied cmp' a (tied cmp a sorted) := by rw [tied_then, tied_comm]
        _ = tied cmp' a (tied cmp a ys) := by rw [hrearranges a]
        _ = tied cmp a (tied cmp' a ys) := tied_comm cmp
        _ = tied (fun a b => (cmp a b).then (cmp' a b)) a xs := by rw [hrearranges' a, tied_then]
  apply hsorted.congr
  intro a ha b hb
  rw [hcmp a ha b hb, hcmp' a ha b hb]

end IsStableSort

end Arrange
