import Arrange.Proofs.Sorting.Search
import Arrange.Proofs.Sorting.Stable
import Arrange.Sorting.Merge

/-!
# Merging is merging

However a merge goes about it, with pairs or leaps, from the front or from the back, it comes to the
plain merge of the library (`mergeFrom_eq`, `merge_eq`), when the runs are in order and the test
goes by that order (`GoesBy`). What is left out on the way does not matter: the elements that stay
in front or behind, and the comparisons of the element that is known to come last.
-/

set_option autoImplicit false

namespace Arrange.Sorting

open Std

variable {α : Type}

/-! ## Merging stretches -/

section Stretches

variable {le : α → α → Bool} {a b : α} {as bs as₁ as₂ bs₁ bs₂ : List α}

/-- Left elements that come before the first right one stay in front. -/
theorem merge_append_left (h : ∀ x ∈ as₁, ∀ y ∈ bs.head?, le x y = true) :
    List.merge (as₁ ++ as₂) bs le = as₁ ++ List.merge as₂ bs le := by
  cases bs with
  | nil => rw [List.merge_right, List.merge_right]
  | cons b bs =>
      induction as₁ with
      | nil => rfl
      | cons x as₁ ih =>
          obtain ⟨hx, has₁⟩ := List.forall_mem_cons.mp h
          rw [List.cons_append, List.cons_merge_cons_pos _ _ _ (hx b rfl), ih has₁,
            List.cons_append]

/-- Right elements that come before the first left one stay in front. -/
theorem merge_append_right (h : ∀ y ∈ bs₁, ∀ x ∈ as.head?, le x y = false) :
    List.merge as (bs₁ ++ bs₂) le = bs₁ ++ List.merge as bs₂ le := by
  cases as with
  | nil => rw [List.nil_merge, List.nil_merge]
  | cons a as =>
      induction bs₁ with
      | nil => rfl
      | cons y bs₁ ih =>
          obtain ⟨hy, hbs₁⟩ := List.forall_mem_cons.mp h
          rw [List.cons_append, List.cons_merge_cons_neg _ _ _ (by simp [hy a rfl]), ih hbs₁,
            List.cons_append]

/-- A leap in the left run: the first right element follows those that come before it. -/
theorem merge_leap_left (h₁ : ∀ x ∈ as₁, le x b = true) (h₂ : ∀ x ∈ as₂, le x b = false) :
    List.merge (as₁ ++ as₂) (b :: bs) le = as₁ ++ b :: List.merge as₂ bs le := by
  rw [merge_append_left (by simpa using h₁)]
  cases as₂ with
  | nil => rw [List.nil_merge, List.nil_merge]
  | cons x as₂ => rw [List.cons_merge_cons_neg _ _ _ (by simp [h₂ x List.mem_cons_self])]

/-- A leap in the right run. -/
theorem merge_leap_right (h₁ : ∀ y ∈ bs₁, le a y = false) (h₂ : ∀ y ∈ bs₂, le a y = true) :
    List.merge (a :: as) (bs₁ ++ bs₂) le = bs₁ ++ a :: List.merge as bs₂ le := by
  rw [merge_append_right (by simpa using h₁)]
  cases bs₂ with
  | nil => rw [List.merge_right, List.merge_right]
  | cons y bs₂ => rw [List.cons_merge_cons_pos _ _ _ (h₂ y List.mem_cons_self)]

/-- Left elements that come after all right ones stay behind. -/
theorem merge_append_last_left (h : ∀ x ∈ as₂, ∀ y ∈ bs, le x y = false) :
    List.merge (as₁ ++ as₂) bs le = List.merge as₁ bs le ++ as₂ := by
  induction as₁, bs using List.merge.induct le with
  | case1 bs =>
      rw [List.nil_append, List.nil_merge]
      cases as₂ with
      | nil => rw [List.nil_merge, List.append_nil]
      | cons x as₂ =>
          have hlast : List.merge (x :: as₂) (bs ++ []) le = bs ++ List.merge (x :: as₂) [] le :=
            merge_append_right (by simpa using h x List.mem_cons_self)
          rwa [List.append_nil, List.merge_right] at hlast
  | case2 as₁ => rw [List.merge_right, List.merge_right]
  | case3 a as₁ b bs hab ih =>
      rw [List.cons_append, List.cons_merge_cons_pos _ _ _ hab,
        List.cons_merge_cons_pos _ _ _ hab, ih h, List.cons_append]
  | case4 a as₁ b bs hab ih =>
      have hbs : ∀ x ∈ as₂, ∀ y ∈ bs, le x y = false :=
        fun x hx y hy => h x hx y (List.mem_cons_of_mem b hy)
      rw [List.cons_append, List.cons_merge_cons_neg _ _ _ hab,
        List.cons_merge_cons_neg _ _ _ hab, List.cons_append, ← ih hbs, List.cons_append]

/-- Right elements that come after all left ones stay behind. -/
theorem merge_append_last_right (h : ∀ x ∈ as, ∀ y ∈ bs₂, le x y = true) :
    List.merge as (bs₁ ++ bs₂) le = List.merge as bs₁ le ++ bs₂ := by
  induction as, bs₁ using List.merge.induct le with
  | case1 bs₁ => rw [List.nil_merge, List.nil_merge]
  | case2 as =>
      rw [List.nil_append, List.merge_right]
      exact List.merge_of_le fun x y hx hy => h x hx y hy
  | case3 a as b bs₁ hab ih =>
      have has : ∀ x ∈ as, ∀ y ∈ bs₂, le x y = true :=
        fun x hx => h x (List.mem_cons_of_mem a hx)
      rw [List.cons_append, List.cons_merge_cons_pos _ _ _ hab,
        List.cons_merge_cons_pos _ _ _ hab, List.cons_append, ← ih has, List.cons_append]
  | case4 a as b bs₁ hab ih =>
      rw [List.cons_append, List.cons_merge_cons_neg _ _ _ hab,
        List.cons_merge_cons_neg _ _ _ hab, ih h, List.cons_append]

end Stretches

/-! ## Runs from one side -/

section Sides

variable {cmp : α → α → Ordering} {as bs : List α}

/-- Whether `a` of the left run is met before `b` of the right run: from the front unless `b` goes
before `a`, from the back if it does. -/
def Side.meetsFirst (side : Side) (cmp : α → α → Ordering) (a b : α) : Bool :=
  (cmp b a == .lt) == (side == .back)

/-- The elements of a run in the order in which they are met from one side. -/
def Side.InOrder : Side → (α → α → Ordering) → List α → Prop
  | front, cmp, xs => xs.Pairwise fun x y => (cmp x y).isLE
  | back, cmp, xs => xs.Pairwise fun x y => (cmp y x).isLE

/-- The run that is kept for the end ends with the element that is met last of all. -/
def Side.KeepsLast : Side → (α → α → Ordering) → List α → List α → Prop
  | front, cmp, as, bs => ∀ a ∈ as.getLast?, ∀ b ∈ bs, front.meetsFirst cmp a b = false
  | back, cmp, as, bs => ∀ b ∈ bs.getLast?, ∀ a ∈ as, back.meetsFirst cmp a b = true

theorem Side.InOrder.drop {side : Side} (h : side.InOrder cmp as) (n : Nat) :
    side.InOrder cmp (as.drop n) := by
  cases side <;> exact List.Pairwise.sublist (List.drop_sublist n as) h

theorem Side.KeepsLast.drop {side : Side} (h : side.KeepsLast cmp as bs) (k l : Nat) :
    side.KeepsLast cmp (as.drop k) (bs.drop l) := by
  have hlast {n : Nat} {xs : List α} {x : α} (hx : x ∈ (xs.drop n).getLast?) : x ∈ xs.getLast? := by
    rw [List.getLast?_drop] at hx
    split at hx
    · cases hx
    · exact hx
  cases side with
  | front => exact fun a ha b hb => h a (hlast ha) b (List.mem_of_mem_drop hb)
  | back => exact fun b hb a ha => h b (hlast hb) a (List.mem_of_mem_drop ha)

/-- No element of a list in order is greater than the last one. -/
theorem InOrder.isLE_getLast [ReflCmp cmp] {a x : α} (h : InOrder cmp as)
    (hlast : as.getLast? = some a) (hx : x ∈ as) : (cmp x a).isLE := by
  obtain ⟨as', rfl⟩ := List.getLast?_eq_some_iff.mp hlast
  rcases List.mem_append.mp hx with hx | hx
  · exact (List.pairwise_append.mp h).2.2 x hx a (by simp)
  · rw [List.mem_singleton.mp hx]
    exact ReflCmp.isLE_rfl

/-- A run from the back is the run turned round. -/
theorem Side.inOrder_back_reverse : back.InOrder cmp as.reverse ↔ Sorting.InOrder cmp as :=
  List.pairwise_reverse

theorem Side.meetsFirst_back {a b : α} : back.meetsFirst cmp a b = true ↔ cmp b a = .lt := by
  show ((cmp b a == .lt) == true) = true ↔ _
  simp

theorem Side.meetsFirst_front_eq_false {a b : α} :
    front.meetsFirst cmp a b = false ↔ cmp b a = .lt := by
  show ((cmp b a == .lt) == false) = false ↔ _
  simp

variable [TransCmp cmp]

theorem Side.meetsFirst_front : front.meetsFirst cmp = fun a b => (cmp a b).isLE := by
  funext a b
  rw [← not_lt_eq_isLE a b]
  show ((cmp b a == .lt) == false) = _
  simp

theorem Side.meetsFirst_back_eq_false {a b : α} :
    back.meetsFirst cmp a b = false ↔ (cmp a b).isLE := by
  rw [← not_lt_eq_isLE a b]
  show ((cmp b a == .lt) == true) = false ↔ _
  simp

/-- What is met before an element that is met before `b` is met before `b`. -/
theorem Side.InOrder.meetsFirst_left {side : Side} (h : side.InOrder cmp as) (b : α) :
    as.Pairwise fun x y => side.meetsFirst cmp y b = true → side.meetsFirst cmp x b = true := by
  cases side with
  | front =>
      rw [meetsFirst_front]
      exact h.imp fun hxy hyb => TransCmp.isLE_trans hxy hyb
  | back =>
      simp only [meetsFirst_back]
      exact h.imp fun hyx hby => TransCmp.lt_of_lt_of_isLE hby hyx

/-- What is met before an element that is met before `a` is met before `a`. -/
theorem Side.InOrder.meetsFirst_right {side : Side} (h : side.InOrder cmp bs) (a : α) :
    bs.Pairwise fun x y =>
      (!side.meetsFirst cmp a y) = true → (!side.meetsFirst cmp a x) = true := by
  have hcontra : bs.Pairwise fun x y =>
      side.meetsFirst cmp a x = true → side.meetsFirst cmp a y = true := by
    cases side with
    | front =>
        rw [meetsFirst_front]
        exact h.imp fun hxy hax => TransCmp.isLE_trans hax hxy
    | back =>
        simp only [meetsFirst_back]
        exact h.imp fun hyx hxa => TransCmp.lt_of_isLE_of_lt hyx hxa
  refine hcontra.imp fun {x y} himp hy => ?_
  cases hx : side.meetsFirst cmp a x with
  | false => rfl
  | true => rw [himp hx] at hy; exact hy

/-- Met from the back the elements come in the reverse of the order in which they are met from the
front. -/
theorem reverse_merge_back (has : Side.back.InOrder cmp as) (hbs : Side.back.InOrder cmp bs) :
    (List.merge as bs (Side.back.meetsFirst cmp)).reverse
      = List.merge as.reverse bs.reverse (Side.front.meetsFirst cmp) := by
  induction as, bs using List.merge.induct (Side.back.meetsFirst cmp) with
  | case1 bs => rw [List.nil_merge, List.reverse_nil, List.nil_merge]
  | case2 as => rw [List.merge_right, List.reverse_nil, List.merge_right]
  | case3 a as b bs hab ih =>
      -- no right element is as great as the greatest left one
      have hba : cmp b a = .lt := Side.meetsFirst_back.mp hab
      have hlast : ∀ x ∈ [a], ∀ y ∈ (b :: bs).reverse, Side.front.meetsFirst cmp x y = false := by
        intro x hx y hy
        rw [List.mem_singleton.mp hx, Side.meetsFirst_front_eq_false]
        rcases List.mem_cons.mp (List.mem_reverse.mp hy) with rfl | hy
        · exact hba
        · exact TransCmp.lt_of_isLE_of_lt ((List.pairwise_cons.mp hbs).1 y hy) hba
      calc (List.merge (a :: as) (b :: bs) (Side.back.meetsFirst cmp)).reverse
          = (List.merge as (b :: bs) (Side.back.meetsFirst cmp)).reverse ++ [a] := by
            rw [List.cons_merge_cons_pos _ _ _ hab, List.reverse_cons]
        _ = List.merge as.reverse (b :: bs).reverse (Side.front.meetsFirst cmp) ++ [a] := by
            rw [ih (List.pairwise_cons.mp has).2 hbs]
        _ = List.merge (a :: as).reverse (b :: bs).reverse (Side.front.meetsFirst cmp) := by
            rw [← merge_append_last_left hlast, ← List.reverse_cons]
  | case4 a as b bs hab ih =>
      -- no left element is greater than the greatest right one
      have hle : (cmp a b).isLE :=
        Side.meetsFirst_back_eq_false.mp (Bool.eq_false_iff.mpr hab)
      have hlast : ∀ x ∈ (a :: as).reverse, ∀ y ∈ [b], Side.front.meetsFirst cmp x y = true := by
        intro x hx y hy
        rw [List.mem_singleton.mp hy, Side.meetsFirst_front]
        rcases List.mem_cons.mp (List.mem_reverse.mp hx) with rfl | hx
        · exact hle
        · exact TransCmp.isLE_trans ((List.pairwise_cons.mp has).1 x hx) hle
      calc (List.merge (a :: as) (b :: bs) (Side.back.meetsFirst cmp)).reverse
          = (List.merge (a :: as) bs (Side.back.meetsFirst cmp)).reverse ++ [b] := by
            rw [List.cons_merge_cons_neg _ _ _ hab, List.reverse_cons]
        _ = List.merge (a :: as).reverse bs.reverse (Side.front.meetsFirst cmp) ++ [b] := by
            rw [ih has (List.pairwise_cons.mp hbs).2]
        _ = List.merge (a :: as).reverse (b :: bs).reverse (Side.front.meetsFirst cmp) := by
            rw [← merge_append_last_right hlast, ← List.reverse_cons]

/-- A merge of runs in order is in order. -/
theorem inOrder_merge (has : InOrder cmp as) (hbs : InOrder cmp bs) :
    InOrder cmp (List.merge as bs (Side.front.meetsFirst cmp)) := by
  have htotal : ∀ a b, ((cmp a b).isLE || (cmp b a).isLE) = true := by
    intro a b
    have hswap : cmp b a = (cmp a b).swap := OrientedCmp.eq_swap
    rw [hswap]
    cases cmp a b <;> rfl
  rw [Side.meetsFirst_front]
  exact List.pairwise_merge (fun _ _ _ => TransCmp.isLE_trans) htotal as bs has hbs

/-- A merge leaves elements that tie in the order in which they stand in the two runs. -/
theorem rearranges_merge (has : InOrder cmp as) :
    Rearranges cmp (List.merge as bs (Side.front.meetsFirst cmp)) (as ++ bs) := by
  induction as, bs using List.merge.induct (Side.front.meetsFirst cmp) with
  | case1 bs => rw [List.nil_merge]; exact Rearranges.refl bs
  | case2 as => rw [List.merge_right, List.append_nil]; exact Rearranges.refl as
  | case3 a as b bs hab ih =>
      rw [List.cons_merge_cons_pos _ _ _ hab]
      exact (ih (List.pairwise_cons.mp has).2).cons a
  | case4 a as b bs hab ih =>
      rw [List.cons_merge_cons_neg _ _ _ hab]
      -- `b` is less than all elements of the left run, so that it may be put before them
      have hba : cmp b a = .lt := Side.meetsFirst_front_eq_false.mp (Bool.eq_false_iff.mpr hab)
      have hless : ∀ x ∈ a :: as, ∀ y ∈ [b], cmp y x = .lt := by
        intro x hx y hy
        rw [List.mem_singleton.mp hy]
        rcases List.mem_cons.mp hx with rfl | hx
        · exact hba
        · exact TransCmp.lt_of_lt_of_isLE hba ((List.pairwise_cons.mp has).1 x hx)
      have hpast : Rearranges cmp ([b] ++ (a :: as) ++ bs) ((a :: as) ++ [b] ++ bs) :=
        (rearranges_append_comm hless).append (Rearranges.refl bs)
      rw [List.append_assoc _ [b] bs] at hpast
      exact ((ih has).cons b).trans hpast

end Sides

/-! ## The algorithm -/

section Algorithm

variable {m : Type → Type} [Monad m] {before : α → α → m Bool} {cmp : α → α → Ordering} {D : Set α}
  {as bs : List α}

/-- Two runs of members of `D` that can be merged from one side. -/
structure Side.Mergeable (side : Side) (cmp : α → α → Ordering) (D : Set α) (as bs : List α) :
    Prop where
  left_mem : ∀ a ∈ as, a ∈ D
  right_mem : ∀ b ∈ bs, b ∈ D
  left_inOrder : side.InOrder cmp as
  right_inOrder : side.InOrder cmp bs
  keepsLast : side.KeepsLast cmp as bs

theorem Side.Mergeable.drop {side : Side} (h : side.Mergeable cmp D as bs) (k l : Nat) :
    side.Mergeable cmp D (as.drop k) (bs.drop l) where
  left_mem a ha := h.left_mem a (List.mem_of_mem_drop ha)
  right_mem b hb := h.right_mem b (List.mem_of_mem_drop hb)
  left_inOrder := h.left_inOrder.drop k
  right_inOrder := h.right_inOrder.drop l
  keepsLast := h.keepsLast.drop k l

/-- Without its last element the left run can be merged from the back, where the first right element
goes before all left ones. -/
theorem Side.Mergeable.back {a : α} (h : front.Mergeable cmp D (as ++ [a]) bs)
    (hfirst : ∀ b ∈ bs.head?, ∀ x ∈ as ++ [a], front.meetsFirst cmp x b = false) :
    Side.back.Mergeable cmp D as.reverse bs.reverse where
  left_mem x hx := h.left_mem x (List.mem_append_left [a] (List.mem_reverse.mp hx))
  right_mem y hy := h.right_mem y (List.mem_reverse.mp hy)
  left_inOrder := Side.inOrder_back_reverse.mpr
    (List.Pairwise.sublist (List.sublist_append_left as [a]) h.left_inOrder)
  right_inOrder := Side.inOrder_back_reverse.mpr h.right_inOrder
  keepsLast := by
    intro y hy x hx
    rw [List.getLast?_reverse] at hy
    rw [Side.meetsFirst_back, ← Side.meetsFirst_front_eq_false]
    exact hfirst y hy x (List.mem_append_left [a] (List.mem_reverse.mp hx))

/-- Where the run that is kept for the end is down to one element, that one is met last. -/
theorem Side.closing_eq_merge {side : Side} {a b : α} (hclosing : side.isClosing as bs = true)
    (h : side.KeepsLast cmp (a :: as) (b :: bs)) :
    side.closing (a :: as) (b :: bs) = List.merge (a :: as) (b :: bs) (side.meetsFirst cmp) := by
  cases side with
  | front =>
      obtain rfl : as = [] := List.isEmpty_iff.mp hclosing
      have hlast : List.merge ([] ++ [a]) (b :: bs) (front.meetsFirst cmp)
          = List.merge [] (b :: bs) (front.meetsFirst cmp) ++ [a] :=
        merge_append_last_left (by simpa using h a rfl)
      rw [List.nil_append, List.nil_merge] at hlast
      exact hlast.symm
  | back =>
      obtain rfl : bs = [] := List.isEmpty_iff.mp hclosing
      have hlast : List.merge (a :: as) ([] ++ [b]) (back.meetsFirst cmp)
          = List.merge (a :: as) [] (back.meetsFirst cmp) ++ [b] :=
        merge_append_last_right (by simpa using h b rfl)
      rw [List.nil_append, List.merge_right] at hlast
      exact hlast.symm

variable [LawfulMonad m] (hbefore : GoesBy before cmp D)

include hbefore

theorem takesLeft_eq (side : Side) {a b : α} (ha : a ∈ D) (hb : b ∈ D) :
    side.takesLeft before a b = pure (side.meetsFirst cmp a b) := by
  unfold Side.takesLeft
  rw [hbefore b hb a ha, pure_bind]
  rfl

variable [TransCmp cmp]

/-- A search in the left run finds the elements that are met before the next right one. -/
theorem leading_left_eq {side : Side} {b : α} (has : ∀ a ∈ as, a ∈ D) (hb : b ∈ D)
    (h : side.InOrder cmp as) :
    ∃ k, leading side (fun x => side.takesLeft before x b) as = pure k ∧
      (∀ x ∈ as.take k, side.meetsFirst cmp x b = true) ∧
      ∀ x ∈ as.drop k, side.meetsFirst cmp x b = false := by
  obtain ⟨k, hk, htake, hdrop⟩ := exists_satisfiedBelow
    (fun x hx => takesLeft_eq hbefore side (has x hx) hb) (h.meetsFirst_left b)
  exact ⟨k, leading_eq hk, htake, hdrop⟩

/-- A search in the right run finds the elements that are met before the next left one. -/
theorem leading_right_eq {side : Side} {a : α} (hbs : ∀ b ∈ bs, b ∈ D) (ha : a ∈ D)
    (h : side.InOrder cmp bs) :
    ∃ l, leading side (fun y => do return !(← side.takesLeft before a y)) bs = pure l ∧
      (∀ y ∈ bs.take l, side.meetsFirst cmp a y = false) ∧
      ∀ y ∈ bs.drop l, side.meetsFirst cmp a y = true := by
  have htest : ∀ y ∈ bs, (do return !(← side.takesLeft before a y))
      = (pure (!side.meetsFirst cmp a y) : m Bool) := by
    intro y hy
    rw [takesLeft_eq hbefore side ha (hbs y hy), pure_bind]
  obtain ⟨l, hl, htake, hdrop⟩ := exists_satisfiedBelow htest (h.meetsFirst_right a)
  exact ⟨l, leading_eq hl, by simpa using htake, by simpa using hdrop⟩

/-- From either side the runs are merged as the library merges them. -/
theorem mergeFrom_eq {side : Side} (progress : Progress) (threshold : Nat)
    (h : side.Mergeable cmp D as bs) :
    ∃ next, mergeFrom side before progress threshold as bs
      = pure (List.merge as bs (side.meetsFirst cmp), next) := by
  fun_induction mergeFrom side before progress threshold as bs with
  | case1 progress threshold bs => exact ⟨threshold, by rw [List.nil_merge]⟩
  | case2 progress threshold as hne => exact ⟨threshold, by rw [List.merge_right]⟩
  | case3 progress threshold a as b bs hclosing =>
      exact ⟨threshold, congrArg (fun merged => pure (merged, threshold))
        (Side.closing_eq_merge hclosing h.keepsLast)⟩
  | case4 progress threshold a as b bs hopen left right threshold' hmove fromLeft fromRight =>
      have ha : a ∈ D := h.left_mem a List.mem_cons_self
      have hb : b ∈ D := h.right_mem b List.mem_cons_self
      rw [takesLeft_eq hbefore side ha hb, pure_bind]
      by_cases hfirst : side.meetsFirst cmp a b = true
      · obtain ⟨next, hnext⟩ := fromLeft (h.drop 1 0)
        refine ⟨next, ?_⟩
        rw [if_pos hfirst, hnext, pure_bind, List.cons_merge_cons_pos _ _ _ hfirst]
      · obtain ⟨next, hnext⟩ := fromRight (h.drop 0 1)
        refine ⟨next, ?_⟩
        rw [if_neg hfirst, hnext, pure_bind, List.cons_merge_cons_neg _ _ _ hfirst]
  | case5 progress threshold a as b bs hopen threshold' hmove leap =>
      have hb : b ∈ D := h.right_mem b List.mem_cons_self
      obtain ⟨k, hk, htake, hdrop⟩ := leading_left_eq hbefore h.left_mem hb h.left_inOrder
      have hleap : List.merge ((a :: as).take k ++ (a :: as).drop k) (b :: bs)
            (side.meetsFirst cmp)
          = (a :: as).take k ++ b :: List.merge ((a :: as).drop k) bs (side.meetsFirst cmp) :=
        merge_leap_left htake hdrop
      rw [List.take_append_drop] at hleap
      obtain ⟨next, hnext⟩ := leap k (h.drop k 1)
      exact ⟨next, by rw [hk, pure_bind, hnext, pure_bind, hleap]⟩
  | case6 progress threshold a as b bs hopen left threshold' hmove leap =>
      have ha : a ∈ D := h.left_mem a List.mem_cons_self
      obtain ⟨l, hl, htake, hdrop⟩ := leading_right_eq hbefore h.right_mem ha h.right_inOrder
      have hleap : List.merge (a :: as) ((b :: bs).take l ++ (b :: bs).drop l)
            (side.meetsFirst cmp)
          = (b :: bs).take l ++ a :: List.merge as ((b :: bs).drop l) (side.meetsFirst cmp) :=
        merge_leap_right htake hdrop
      rw [List.take_append_drop] at hleap
      obtain ⟨next, hnext⟩ := leap l (h.drop 1 l)
      exact ⟨next, by rw [hl, pure_bind, hnext, pure_bind, hleap]⟩

/-- A merge of runs that overlap, where the right run holds the first element of all and the left
run the last one. -/
theorem mergeOverlap_eq (threshold : Nat) (h : Side.front.Mergeable cmp D as bs)
    (hfirst : ∀ b ∈ bs.head?, ∀ a ∈ as, Side.front.meetsFirst cmp a b = false) :
    ∃ next, mergeOverlap before threshold as bs
      = pure (List.merge as bs (Side.front.meetsFirst cmp), next) := by
  by_cases hlength : as.length ≤ bs.length
  · unfold mergeOverlap
    rw [if_pos hlength]
    cases bs with
    | nil => exact ⟨threshold, by rw [List.merge_right]⟩
    | cons b bs =>
        have hhead : List.merge as ([b] ++ bs) (Side.front.meetsFirst cmp)
            = [b] ++ List.merge as bs (Side.front.meetsFirst cmp) := by
          apply merge_append_right
          intro y hy x hx
          rw [List.mem_singleton.mp hy]
          exact hfirst b rfl x (List.mem_of_mem_head? hx)
        have hrest : Side.front.Mergeable cmp D as bs := h.drop 0 1
        obtain ⟨next, hnext⟩ := mergeFrom_eq hbefore (.pairs 0 0) threshold hrest
        refine ⟨next, ?_⟩
        show mergeFrom .front before (.pairs 0 0) threshold as bs >>= _ = _
        rw [hnext, pure_bind]
        exact congrArg (fun merged => pure (merged, next)) hhead.symm
  · unfold mergeOverlap
    rw [if_neg hlength]
    rcases List.eq_nil_or_concat' as with rfl | ⟨as, a, rfl⟩
    · exact absurd (Nat.zero_le _) hlength
    · have hlast : List.merge (as ++ [a]) bs (Side.front.meetsFirst cmp)
          = List.merge as bs (Side.front.meetsFirst cmp) ++ [a] := by
        apply merge_append_last_left
        intro x hx y hy
        rw [List.mem_singleton.mp hx]
        exact h.keepsLast a (by simp) y hy
      have hrest : Side.back.Mergeable cmp D as.reverse bs.reverse := h.back hfirst
      obtain ⟨next, hnext⟩ := mergeFrom_eq hbefore (.pairs 0 0) threshold hrest
      refine ⟨next, ?_⟩
      rw [List.reverse_append]
      show mergeFrom .back before (.pairs 0 0) threshold as.reverse bs.reverse >>= _ = _
      rw [hnext, pure_bind]
      refine congrArg (fun merged => pure (merged, next)) ?_
      rw [List.reverse_cons, reverse_merge_back hrest.left_inOrder hrest.right_inOrder,
        List.reverse_reverse, List.reverse_reverse, hlast]

/-- From the back the search finds right elements that stay behind, and the others can be merged
with the left run from the front. -/
theorem trailing_right_eq {a : α} (hleft : ∀ x ∈ as, x ∈ D) (hright : ∀ y ∈ bs, y ∈ D)
    (has : InOrder cmp as) (hbs : InOrder cmp bs) (hlast : as.getLast? = some a) :
    ∃ l, leading .back (fun y => do return !(← Side.back.takesLeft before a y)) bs.reverse
        = pure l ∧
      Side.front.Mergeable cmp D as (bs.take (bs.length - l)) ∧
      List.merge as bs (Side.front.meetsFirst cmp)
        = List.merge as (bs.take (bs.length - l)) (Side.front.meetsFirst cmp)
          ++ bs.drop (bs.length - l) := by
  obtain ⟨l, hl, hbehind, hrest⟩ := leading_right_eq hbefore
    (fun y hy => hright y (List.mem_reverse.mp hy)) (hleft a (List.mem_of_getLast? hlast))
    (Side.inOrder_back_reverse.mpr hbs)
  refine ⟨l, hl, ?_, ?_⟩
  · exact
      { left_mem := hleft
        right_mem := fun y hy => hright y (List.mem_of_mem_take hy)
        left_inOrder := has
        right_inOrder := List.Pairwise.sublist (List.take_sublist _ _) hbs
        keepsLast := by
          intro x hx y hy
          obtain rfl : a = x := Option.some.inj (hlast.symm.trans hx)
          rw [Side.meetsFirst_front_eq_false, ← Side.meetsFirst_back]
          rw [List.drop_reverse] at hrest
          exact hrest y (List.mem_reverse.mpr hy) }
  · have hkept : List.merge as (bs.take (bs.length - l) ++ bs.drop (bs.length - l))
          (Side.front.meetsFirst cmp)
        = List.merge as (bs.take (bs.length - l)) (Side.front.meetsFirst cmp)
          ++ bs.drop (bs.length - l) := by
      apply merge_append_last_right
      intro x hx y hy
      rw [Side.meetsFirst_front]
      rw [List.take_reverse] at hbehind
      have hxa : (cmp x a).isLE := has.isLE_getLast hlast hx
      have hay : (cmp a y).isLE :=
        Side.meetsFirst_back_eq_false.mp (hbehind y (List.mem_reverse.mpr hy))
      exact TransCmp.isLE_trans hxa hay
    rwa [List.take_append_drop] at hkept

/-- Two neighbouring runs in order are merged as the library merges them. -/
theorem merge_eq (threshold : Nat) (hleft : ∀ a ∈ as, a ∈ D) (hright : ∀ b ∈ bs, b ∈ D)
    (has : InOrder cmp as) (hbs : InOrder cmp bs) :
    ∃ next, merge before threshold as bs
      = pure (List.merge as bs (Side.front.meetsFirst cmp), next) := by
  cases bs with
  | nil => exact ⟨threshold, by rw [List.merge_right]; rfl⟩
  | cons b bs =>
      have hfront : Side.front.InOrder cmp as := has
      obtain ⟨k, hk, htake, hdrop⟩ :=
        leading_left_eq hbefore hleft (hright b List.mem_cons_self) hfront
      -- the left elements that stay in front
      have hkept : List.merge (as.take k ++ as.drop k) (b :: bs) (Side.front.meetsFirst cmp)
          = as.take k ++ List.merge (as.drop k) (b :: bs) (Side.front.meetsFirst cmp) :=
        merge_append_left (by simpa using htake)
      rw [List.take_append_drop] at hkept
      show ∃ next, (leading .front (fun x => Side.front.takesLeft before x b) as >>= _) = _
      rw [hk, pure_bind, hkept]
      cases hlast : (as.drop k).getLast? with
      | none =>
          have hnil : as.drop k = [] := List.getLast?_eq_none_iff.mp hlast
          have hall : as.take k = as := by simpa [hnil] using List.take_append_drop k as
          exact ⟨threshold, by rw [hnil, List.nil_merge, hall]⟩
      | some a =>
          obtain ⟨l, hl, hoverlap, hkept'⟩ := trailing_right_eq hbefore
            (fun x hx => hleft x (List.mem_of_mem_drop hx)) hright (hfront.drop k) hbs hlast
          have hfirst : ∀ y ∈ ((b :: bs).take ((b :: bs).length - l)).head?, ∀ x ∈ as.drop k,
              Side.front.meetsFirst cmp x y = false := by
            intro y hy
            rw [List.head?_take] at hy
            split at hy
            · cases hy
            · obtain rfl : b = y := Option.some.inj hy
              exact hdrop
          obtain ⟨next, hnext⟩ := mergeOverlap_eq hbefore threshold hoverlap hfirst
          refine ⟨next, ?_⟩
          show (leading .back (fun y => do return !(← Side.back.takesLeft before a y))
            (b :: bs).reverse >>= _) = _
          rw [hl, pure_bind, hnext, pure_bind, hkept']
          exact congrArg (fun merged => pure (merged, next)) (List.append_assoc ..)

/-- Two neighbouring runs in order make one run in order in which elements that tie keep their
order. -/
theorem exists_merge_eq (threshold : Nat) (hleft : ∀ a ∈ as, a ∈ D) (hright : ∀ b ∈ bs, b ∈ D)
    (has : InOrder cmp as) (hbs : InOrder cmp bs) :
    ∃ run next, merge before threshold as bs = pure (run, next) ∧
      InOrder cmp run ∧ Rearranges cmp run (as ++ bs) := by
  obtain ⟨next, hnext⟩ := merge_eq hbefore threshold hleft hright has hbs
  exact ⟨_, next, hnext, inOrder_merge has hbs, rearranges_merge has⟩

end Algorithm

end Arrange.Sorting
