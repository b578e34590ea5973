import Arrange.Proofs.Sorting.Search
import Arrange.Proofs.Sorting.Stable
import Arrange.Sorting.Run

/-!
# Runs are in order

A natural run is in order, and it leaves elements that tie in the order of the list: none tie where
it is turned round (`exists_naturalRun_eq`). The same holds of a run that is lengthened by
insertion, for an element is put behind all that it ties with (`exists_insertAll_eq`).
-/

set_option autoImplicit false

namespace Arrange.Sorting

open Std

variable {α : Type}

/-! ## Turning round -/

section Reversal

variable {cmp : α → α → Ordering} {xs : List α}

instance instTransFlipLt [TransCmp cmp] : Trans (fun a b : α => cmp b a = .lt)
    (fun a b => cmp b a = .lt) (fun a b => cmp b a = .lt) :=
  ⟨fun hba hcb => TransCmp.lt_trans hcb hba⟩

/-- A list in strictly reverse order may be turned round. -/
theorem rearranges_reverse [TransCmp cmp] (h : xs.Pairwise fun a b => cmp b a = .lt) :
    Rearranges cmp xs.reverse xs := by
  induction xs with
  | nil => exact Rearranges.refl []
  | cons x xs ih =>
      obtain ⟨hx, hxs⟩ := List.pairwise_cons.mp h
      have hless : ∀ a ∈ [x], ∀ b ∈ xs, cmp b a = .lt := by simpa using hx
      rw [List.reverse_cons]
      exact ((ih hxs).append (Rearranges.refl [x])).trans (rearranges_append_comm hless)

/-- A list in strictly reverse order is in order when it is turned round. -/
theorem inOrder_reverse (h : xs.Pairwise fun a b => cmp b a = .lt) : InOrder cmp xs.reverse :=
  List.pairwise_reverse.mpr (h.imp fun hlt => by rw [hlt]; rfl)

end Reversal

variable {m : Type → Type} [Monad m] [LawfulMonad m] {before : α → α → m Bool}
  {cmp : α → α → Ordering} {D : Set α} {xs run : List α} {x : α} (hbefore : GoesBy before cmp D)

include hbefore

/-! ## Natural runs -/

/-- A run continues as long as each element compares with the one in front of it as the first two
do. -/
theorem exists_continuing_eq (reversed : Bool) (hx : x ∈ D) (hxs : ∀ y ∈ xs, y ∈ D) :
    ∃ n, continuing before reversed x xs = pure n ∧
      (x :: xs.take n).IsChain fun a b => (cmp b a == .lt) = reversed := by
  induction xs generalizing x with
  | nil => exact ⟨0, rfl, List.isChain_singleton x⟩
  | cons y xs ih =>
      obtain ⟨hy, hxs⟩ := List.forall_mem_cons.mp hxs
      rw [continuing, hbefore y hy x hx, pure_bind]
      by_cases hgoes : (cmp y x == .lt) = reversed
      · obtain ⟨n, hn, hchain⟩ := ih hy hxs
        refine ⟨n + 1, ?_, ?_⟩
        · rw [if_pos (by simpa using hgoes), hn, pure_bind]
        · exact List.IsChain.cons_cons hgoes hchain
      · refine ⟨0, ?_, List.isChain_singleton x⟩
        rw [if_neg (by simpa using hgoes)]

variable [TransCmp cmp]

/-- A natural run stands for the elements of the list that it takes. -/
theorem exists_naturalRun_eq (hx : x ∈ D) (hxs : ∀ y ∈ xs, y ∈ D) :
    ∃ natural, naturalRun before x xs = pure natural ∧
      InOrder cmp (natural.elements x xs) ∧
      Rearranges cmp (natural.elements x xs) (x :: xs.take natural.more) := by
  cases xs with
  | nil => exact ⟨⟨false, 0⟩, rfl, List.pairwise_singleton _ x, Rearranges.refl [x]⟩
  | cons y xs =>
      obtain ⟨hy, hxs⟩ := List.forall_mem_cons.mp hxs
      obtain ⟨n, hn, hchain⟩ := exists_continuing_eq hbefore (cmp y x == .lt) hy hxs
      refine ⟨⟨cmp y x == .lt, n + 1⟩, ?_, ?_⟩
      · rw [naturalRun, hbefore y hy x hx, pure_bind, hn, pure_bind]
      · have hall : (x :: (y :: xs).take (n + 1)).IsChain
            fun a b => (cmp b a == .lt) = (cmp y x == .lt) := List.IsChain.cons_cons rfl hchain
        simp only [NaturalRun.elements]
        generalize (y :: xs).take (n + 1) = ys at hall
        cases hreversed : cmp y x == .lt with
        | false =>
            have hle : (x :: ys).IsChain fun a b => (cmp a b).isLE := hall.imp fun a b hab => by
              rw [← not_lt_eq_isLE a b, hab, hreversed]
              rfl
            exact ⟨hle.pairwise, Rearranges.refl (x :: ys)⟩
        | true =>
            have hgreater : (x :: ys).IsChain fun a b => cmp b a = .lt := hall.imp fun a b hab => by
              rwa [hreversed, beq_iff_eq] at hab
            exact ⟨inOrder_reverse hgreater.pairwise, rearranges_reverse hgreater.pairwise⟩

/-! ## Insertion -/

/-- An element is put behind the elements that it does not go before. -/
theorem exists_insert_eq (hx : x ∈ D) (hrun : ∀ y ∈ run, y ∈ D) (horder : InOrder cmp run) :
    ∃ longer, insert before run x = pure longer ∧ InOrder cmp longer ∧
      Rearranges cmp longer (run ++ [x]) := by
  have htest : ∀ y ∈ run, (do return !(← before x y)) = (pure (cmp y x).isLE : m Bool) := by
    intro y hy
    rw [hbefore x hx y (hrun y hy), pure_bind, not_lt_eq_isLE]
  obtain ⟨i, hi, htake, hdrop⟩ :=
    exists_satisfiedBelow htest (horder.imp fun hyz hzx => TransCmp.isLE_trans hyz hzx)
  have hgreater : ∀ y ∈ run.drop i, cmp x y = .lt := by
    intro y hy
    exact OrientedCmp.lt_of_not_isLE (by simp [hdrop y hy])
  refine ⟨run.take i ++ x :: run.drop i, ?_, ?_, ?_⟩
  · rw [insert, boundaryFrom_eq hi (Nat.zero_le i), pure_bind]
  · rw [← List.take_append_drop i run] at horder
    obtain ⟨hbelow, habove, hacross⟩ := List.pairwise_append.mp horder
    refine List.pairwise_append.mpr ⟨hbelow, List.pairwise_cons.mpr ⟨?_, habove⟩, ?_⟩
    · intro y hy
      rw [hgreater y hy]
      rfl
    · intro y hy z hz
      rcases List.mem_cons.mp hz with rfl | hz
      · exact htake y hy
      · exact hacross y hy z hz
  · have hless : ∀ y ∈ run.drop i, ∀ z ∈ [x], cmp z y = .lt := by simpa using hgreater
    have hpast : Rearranges cmp (run.take i ++ ([x] ++ run.drop i))
        (run.take i ++ (run.drop i ++ [x])) :=
      (Rearranges.refl _).append (rearranges_append_comm hless)
    rwa [← List.append_assoc _ (run.drop i), List.take_append_drop] at hpast

/-- All elements of a list are put in their places. -/
theorem exists_insertAll_eq (hxs : ∀ x ∈ xs, x ∈ D) (hrun : ∀ y ∈ run, y ∈ D)
    (horder : InOrder cmp run) :
    ∃ longer, insertAll before run xs = pure longer ∧ InOrder cmp longer ∧
      Rearranges cmp longer (run ++ xs) := by
  induction xs generalizing run with
  | nil => exact ⟨run, rfl, horder, by rw [List.append_nil]; exact Rearranges.refl run⟩
  | cons x xs ih =>
      obtain ⟨hx, hxs⟩ := List.forall_mem_cons.mp hxs
      obtain ⟨run', hinsert, horder', hrun'⟩ := exists_insert_eq hbefore hx hrun horder
      have hmem : ∀ y ∈ run', y ∈ D := by
        intro y hy
        rcases List.mem_append.mp (hrun'.mem_iff.mp hy) with hy | hy
        · exact hrun y hy
        · rwa [List.mem_singleton.mp hy]
      obtain ⟨longer, hinsertAll, hlonger, hall⟩ := ih hxs hmem horder'
      refine ⟨longer, ?_, hlonger, ?_⟩
      · rw [insertAll, hinsert, pure_bind, hinsertAll]
      · have hrest := hall.trans (hrun'.append (Rearranges.refl xs))
        rwa [List.append_assoc] at hrest

end Arrange.Sorting
