import Arrange.Proofs.Sorting.Merge
import Arrange.Proofs.Sorting.Run
import Arrange.Sorting

/-!
# Sorting is stable

Where the test goes by an order, every run on the pile stays in order, and read from the bottom to
the top the runs hold the list with elements that tie in their old order (`Pile.exists_join_eq`,
`exists_pileUp_eq`). What is left when all runs are merged is the stable sort (`exists_sort_eq`).
-/

set_option autoImplicit false

namespace Arrange

open Std

namespace Sorting

variable {m : Type → Type} [Monad m] [LawfulMonad m] {α : Type} {before : α → α → m Bool}
  {cmp : α → α → Ordering} {D : Set α}

/-! ## The pile -/

/-- A list in order whose elements are members of `D`. -/
structure IsRun (cmp : α → α → Ordering) (D : Set α) (run : List α) : Prop where
  inOrder : InOrder cmp run
  mem : ∀ a ∈ run, a ∈ D

namespace Pile

/-- In the list that the pile holds, one run may stand for two neighbours. -/
theorem rearranges_toList {above below : List (List α)} {run upper lower : List α}
    (h : Rearranges cmp run (lower ++ upper)) :
    Rearranges cmp (above ++ run :: below).reverse.flatten
      (above ++ upper :: lower :: below).reverse.flatten := by
  have hinside : Rearranges cmp (below.reverse.flatten ++ run ++ above.reverse.flatten)
      (below.reverse.flatten ++ (lower ++ upper) ++ above.reverse.flatten) :=
    ((Rearranges.refl _).append h).append (Rearranges.refl _)
  simpa using hinside

section Join

variable [TransCmp cmp] (hbefore : GoesBy before cmp D)

include hbefore

/-- Two neighbours on the pile make one run. -/
theorem exists_merge_eq (threshold : Nat) {upper lower : List α} (hupper : IsRun cmp D upper)
    (hlower : IsRun cmp D lower) :
    ∃ run next, merge before threshold lower upper = pure (run, next) ∧ IsRun cmp D run ∧
      Rearranges cmp run (lower ++ upper) := by
  obtain ⟨run, next, hmerge, horder, hrun⟩ := Sorting.exists_merge_eq hbefore threshold
    hlower.mem hupper.mem hlower.inOrder hupper.inOrder
  refine ⟨run, next, hmerge, ⟨horder, fun a ha => ?_⟩, hrun⟩
  rcases List.mem_append.mp (hrun.mem_iff.mp ha) with ha | ha
  · exact hlower.mem a ha
  · exact hupper.mem a ha

/-- Merging runs of the pile keeps the list that it holds. -/
theorem exists_join_eq (all : Bool) (threshold : Nat) {runs : List (List α)}
    (h : ∀ run ∈ runs, IsRun cmp D run) :
    ∃ pile, join before all threshold runs = pure pile ∧ (∀ run ∈ pile.runs, IsRun cmp D run) ∧
      Rearranges cmp pile.toList runs.reverse.flatten ∧ (all = true → pile.runs.length ≤ 1) := by
  fun_induction join before all threshold runs with
  | case1 threshold z y x below due hdue ih =>
      simp only [List.forall_mem_cons] at h
      obtain ⟨hz, hy, hx, hbelow⟩ := h
      obtain ⟨run, next, hmerge, hrun, hall⟩ := exists_merge_eq hbefore threshold hy hx
      obtain ⟨pile, hpile, hruns, hlist, hone⟩ := ih run next (by
        simpa only [List.forall_mem_cons] using ⟨hz, hrun, hbelow⟩)
      have hreplace : Rearranges cmp ([z] ++ run :: below).reverse.flatten
          ([z] ++ y :: x :: below).reverse.flatten := rearranges_toList hall
      refine ⟨pile, ?_, hruns, hlist.trans hreplace, hone⟩
      rw [hmerge, pure_bind]
      exact hpile
  | case2 threshold z y x below due hdue hdue' ih =>
      simp only [List.forall_mem_cons] at h
      obtain ⟨hz, hy, hx, hbelow⟩ := h
      obtain ⟨run, next, hmerge, hrun, hall⟩ := exists_merge_eq hbefore threshold hz hy
      obtain ⟨pile, hpile, hruns, hlist, hone⟩ := ih run next (by
        simpa only [List.forall_mem_cons] using ⟨hrun, hx, hbelow⟩)
      have hreplace : Rearranges cmp ([] ++ run :: x :: below).reverse.flatten
          ([] ++ z :: y :: x :: below).reverse.flatten := rearranges_toList hall
      refine ⟨pile, ?_, hruns, hlist.trans hreplace, hone⟩
      rw [hmerge, pure_bind]
      exact hpile
  | case3 threshold z y x below due hdue hdue' =>
      refine ⟨_, rfl, h, Rearranges.refl _, fun hall => ?_⟩
      simp [due, hall] at hdue'
  | case4 threshold z y hdue =>
      simp only [List.forall_mem_cons] at h
      obtain ⟨hz, hy, -⟩ := h
      obtain ⟨run, next, hmerge, hrun, hall⟩ := exists_merge_eq hbefore threshold hz hy
      have hreplace : Rearranges cmp ([] ++ [run]).reverse.flatten
          ([] ++ [z, y]).reverse.flatten := rearranges_toList hall
      exact ⟨⟨[run], next⟩, by rw [hmerge, pure_bind], by simp [hrun], hreplace, fun _ => by simp⟩
  | case5 threshold z y hdue =>
      refine ⟨_, rfl, h, Rearranges.refl _, fun hall => ?_⟩
      simp [hall] at hdue
  | case6 threshold runs hthree htwo =>
      refine ⟨_, rfl, h, Rearranges.refl _, fun _ => ?_⟩
      match runs, hthree, htwo with
      | [], _, _ => simp
      | [z], _, _ => simp
      | [z, y], _, htwo => exact absurd rfl (htwo z y)
      | z :: y :: x :: below, hthree, _ => exact absurd rfl (hthree z y x below)

end Join

end Pile

/-! ## The whole list -/

variable [TransCmp cmp] (hbefore : GoesBy before cmp D)

include hbefore

/-- What the front of a list gives is a run: the natural run, lengthened where it is too short. -/
theorem exists_lengthened_eq {x : α} {xs : List α} (hx : x ∈ D) (hxs : ∀ y ∈ xs, y ∈ D)
    (size : Nat) :
    ∃ natural run, naturalRun before x xs = pure natural ∧
      insertAll before (natural.elements x xs) ((xs.drop natural.more).take (size - natural.more))
        = pure run ∧
      IsRun cmp D run ∧ Rearranges cmp (run ++ xs.drop (max natural.more size)) (x :: xs) := by
  obtain ⟨natural, hnatural, horder, hfront⟩ := exists_naturalRun_eq hbefore hx hxs
  have hmem : ∀ y ∈ natural.elements x xs, y ∈ D := by
    intro y hy
    rcases List.mem_cons.mp (hfront.mem_iff.mp hy) with rfl | hy
    · exact hx
    · exact hxs y (List.mem_of_mem_take hy)
  have hmore : ∀ y ∈ (xs.drop natural.more).take (size - natural.more), y ∈ D :=
    fun y hy => hxs y (List.mem_of_mem_drop (List.mem_of_mem_take hy))
  obtain ⟨run, hrun, horder', hlonger⟩ := exists_insertAll_eq hbefore hmore hmem horder
  refine ⟨natural, run, hnatural, hrun, ⟨horder', fun y hy => ?_⟩, ?_⟩
  · rcases List.mem_append.mp (hlonger.mem_iff.mp hy) with hy | hy
    · exact hmem y hy
    · exact hmore y hy
  · -- the natural run, the elements put into it and the rest of the list
    have hsplit : xs.take natural.more ++ (xs.drop natural.more).take (size - natural.more)
        ++ xs.drop (max natural.more size) = xs := by
      rw [show max natural.more size = natural.more + (size - natural.more) by omega,
        ← List.drop_drop, List.append_assoc, List.take_append_drop, List.take_append_drop]
    have hparts := (hlonger.trans (hfront.append (Rearranges.refl _))).append
      (Rearranges.refl (xs.drop (max natural.more size)))
    rwa [List.cons_append, List.cons_append, hsplit] at hparts

/-- A list that is put on a pile stands behind the list that the pile holds. -/
theorem exists_pileUp_eq (least : Nat) {pile : Pile α} {xs : List α}
    (hpile : ∀ run ∈ pile.runs, IsRun cmp D run) (hxs : ∀ x ∈ xs, x ∈ D) :
    ∃ pile', pileUp before least pile xs = pure pile' ∧ (∀ run ∈ pile'.runs, IsRun cmp D run) ∧
      Rearranges cmp pile'.toList (pile.toList ++ xs) := by
  fun_induction pileUp before least pile xs with
  | case1 pile => exact ⟨pile, rfl, hpile, by rw [List.append_nil]; exact Rearranges.refl _⟩
  | case2 pile x xs ih =>
      obtain ⟨hx, hxs⟩ := List.forall_mem_cons.mp hxs
      obtain ⟨natural, run, hnatural, hinsertAll, hrun, hfront⟩ :=
        exists_lengthened_eq hbefore hx hxs (least - 1)
      have hpush : ∀ run' ∈ (pile.push run).runs, IsRun cmp D run' :=
        List.forall_mem_cons.mpr ⟨hrun, hpile⟩
      obtain ⟨settled, hsettle, hsettled, hlist, -⟩ :=
        Pile.exists_join_eq hbefore false (pile.push run).threshold hpush
      obtain ⟨pile', hpileUp, hpile', hall⟩ :=
        ih natural settled hsettled fun y hy => hxs y (List.mem_of_mem_drop hy)
      refine ⟨pile', ?_, hpile', ?_⟩
      · rw [hnatural, pure_bind, hinsertAll, pure_bind, Pile.settle, hsettle, pure_bind, hpileUp]
      · have hpushed : Rearranges cmp settled.toList (pile.toList ++ run) := by
          rw [← Pile.toList_push]
          exact hlist
        have hparts := hall.trans (hpushed.append (Rearranges.refl _))
        rw [List.append_assoc] at hparts
        exact hparts.trans ((Rearranges.refl _).append hfront)

/-- Where the test goes by an order the list is sorted stably by it. -/
theorem exists_sort_eq {xs : List α} (hxs : ∀ x ∈ xs, x ∈ D) :
    ∃ sorted, sort before xs = pure sorted ∧ IsStableSort cmp sorted xs := by
  obtain ⟨pile, hpile, hruns, hlist⟩ := exists_pileUp_eq hbefore (leastRun xs.length false)
    (show ∀ run ∈ (Pile.empty : Pile α).runs, IsRun cmp D run by simp [Pile.empty]) hxs
  obtain ⟨united, hunite, hunited, hall, hone⟩ :=
    Pile.exists_join_eq hbefore true pile.threshold hruns
  refine ⟨united.toList, ?_, isStableSort_iff_rearranges.mpr ⟨?_, hall.trans hlist⟩⟩
  · rw [sort, hpile, pure_bind, Pile.unite, hunite, pure_bind]
  · -- one run is left, or none
    match hruns' : united.runs, hone rfl with
    | [], _ => simp [Pile.toList, hruns', InOrder]
    | [run], _ =>
        have hrun : IsRun cmp D run := hunited run (by simp [hruns'])
        simpa [Pile.toList, hruns'] using hrun.inOrder

end Sorting

end Arrange
