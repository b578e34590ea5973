import Arrange.Sorting.Search
import Mathlib.Tactic

/-!
# What the searches find

Where exactly the first `n` elements of a list satisfy a test (`SatisfiedBelow`), the searches find
`n`: `boundary_eq` by halving a part of the list that the end of these elements lies in, and
`leading_eq` by strides from the front. There is such an `n` when each element satisfies the test
that stands before one which does (`exists_satisfiedBelow`).
-/

set_option autoImplicit false

namespace Arrange.Sorting

variable {m : Type → Type} [Monad m] {α : Type} {test : α → m Bool} {xs : List α} {n : Nat}

/-- Exactly the first `n` elements of a list satisfy a test. -/
def SatisfiedBelow (test : α → m Bool) (xs : List α) (n : Nat) : Prop :=
  n ≤ xs.length ∧ ∀ (i : Nat) (hi : i < xs.length), test xs[i] = pure (decide (i < n))

/-- A test that an element satisfies whenever a later one does, and `q` gives its answers. -/
theorem exists_satisfiedBelow {q : α → Bool} (htest : ∀ x ∈ xs, test x = pure (q x))
    (hq : xs.Pairwise fun x y => q y = true → q x = true) :
    ∃ n, SatisfiedBelow test xs n ∧ (∀ x ∈ xs.take n, q x = true) ∧
      ∀ x ∈ xs.drop n, q x = false := by
  induction xs with
  | nil => exact ⟨0, ⟨Nat.le_refl 0, by simp⟩, by simp, by simp⟩
  | cons x xs ih =>
      obtain ⟨hx, hxs⟩ := List.pairwise_cons.mp hq
      cases hqx : q x with
      | false =>
          have hall : ∀ y ∈ x :: xs, q y = false := by
            intro y hy
            rcases List.mem_cons.mp hy with rfl | hy
            · exact hqx
            · have himp := hx y hy
              rw [hqx] at himp
              simpa using himp
          refine ⟨0, ⟨Nat.zero_le _, fun i hi => ?_⟩, by simp, hall⟩
          rw [htest _ (List.getElem_mem hi), hall _ (List.getElem_mem hi)]
          rfl
      | true =>
          obtain ⟨n, ⟨hn, hbelow⟩, htake, hdrop⟩ :=
            ih (fun y hy => htest y (List.mem_cons_of_mem x hy)) hxs
          refine ⟨n + 1, ⟨by simpa using hn, fun i hi => ?_⟩, by simpa [hqx] using htake,
            by simpa using hdrop⟩
          cases i with
          | zero => simpa [hqx] using htest x List.mem_cons_self
          | succ i => simpa using hbelow i (by simpa using hi)

variable [LawfulMonad m]

theorem boundary_eq {side : Side} {low high : Nat} {h : high ≤ xs.length}
    (hn : SatisfiedBelow test xs n) (hlow : low ≤ n) (hhigh : n ≤ high) :
    boundary side test xs low high h = pure n := by
  fun_induction boundary side test xs low high h with
  | case1 low high h hlt hmid below above =>
      have htest := hn.2 (low + side.half (high - low)) (by omega)
      rw [List.get_eq_getElem, htest, pure_bind]
      by_cases hpassed : low + side.half (high - low) < n
      · rw [if_pos (by simpa using hpassed)]
        exact below (by omega) hhigh
      · rw [if_neg (by simpa using hpassed)]
        exact above hlow (by omega)
  | case2 low high h hlt =>
      rw [show low = n by omega]

theorem boundaryFrom_eq {side : Side} {low : Nat} (hn : SatisfiedBelow test xs n)
    (hlow : low ≤ n) : boundaryFrom side test xs low = pure n :=
  boundary_eq hn hlow hn.1

theorem stride_eq {side : Side} {passed : Nat} {hpos : 0 < passed}
    (hn : SatisfiedBelow test xs n) (hpassed : passed ≤ n) :
    stride side test xs passed hpos = pure n := by
  fun_induction stride side test xs passed hpos with
  | case1 passed hpos hlt further =>
      have htest := hn.2 (2 * passed - 1) (by omega)
      rw [List.get_eq_getElem, htest, pure_bind]
      by_cases hnext : 2 * passed - 1 < n
      · rw [if_pos (by simpa using hnext)]
        exact further (by omega)
      · rw [if_neg (by simpa using hnext)]
        exact boundary_eq hn hpassed (by omega)
  | case2 passed hpos hlt => exact boundaryFrom_eq hn hpassed

theorem leading_eq {side : Side} (hn : SatisfiedBelow test xs n) :
    leading side test xs = pure n := by
  cases xs with
  | nil =>
      have hzero : n = 0 := Nat.le_zero.mp hn.1
      rw [hzero]
      rfl
  | cons x xs =>
      have htest : test x = pure (decide (0 < n)) := hn.2 0 (by simp)
      show (test x >>= fun passes =>
        if passes then stride side test (x :: xs) 1 Nat.one_pos else pure 0) = pure n
      rw [htest, pure_bind]
      by_cases hpos : 0 < n
      · rw [if_pos (by simpa using hpos)]
        exact stride_eq hn hpos
      · rw [if_neg (by simpa using hpos), show n = 0 by omega]

end Arrange.Sorting
