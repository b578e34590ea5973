import Arrange.Catalog
import Arrange.Order.Extremum
import Arrange.Proofs.Comparator.Leaves
import Arrange.Proofs.Order.Ranges

/-!
# The greatest and the least element

Where a comparator answers by an order, the pass over a sequence is a fold (`bestFrom_eq_foldlM`,
`foldlM_eq_foldl`). What the fold has picked is at each point the first of the elements so far that
none of them is above (`FirstAt.pick_snoc`), so that `greatest` gives the first such element of the
sequence, and `least` the first one that none is below (`exists_greatest`). Without a comparator the
fold is that of `larger` or `smaller`.
-/

set_option autoImplicit false

namespace Arrange

open Std

/-! ## The first greatest element -/

section First

variable {α : Type}

/-- `a` stands at position `i` of a list, and it is the first element that satisfies `p`. -/
structure FirstAt (p : α → Prop) (xs : List α) (i : Nat) (a : α) : Prop where
  at_position : xs[i]? = some a
  satisfies : p a
  first : ∀ j < i, ∀ b, xs[j]? = some b → ¬p b

/-- The better of the best element so far and another one: the best one stays when they tie. -/
def pick (sign : α → α → Ordering) (best x : α) : α := if sign x best == .gt then x else best

variable {sign : α → α → Ordering} {D : Set α}

/-- No element of a list is above `a`. -/
def IsTop (sign : α → α → Ordering) (xs : List α) (a : α) : Prop := ∀ x ∈ xs, (sign x a).isLE

theorem isTop_snoc {seen : List α} {x a : α} :
    IsTop sign (seen ++ [x]) a ↔ IsTop sign seen a ∧ (sign x a).isLE := by
  simp only [IsTop, List.mem_append, List.mem_singleton, or_imp, forall_and, forall_eq]

theorem FirstAt.congr {p q : α → Prop} {xs : List α} {i : Nat} {a : α} (h : FirstAt p xs i a)
    (hpq : ∀ b ∈ xs, p b ↔ q b) : FirstAt q xs i a where
  at_position := h.at_position
  satisfies := (hpq a (List.mem_of_getElem? h.at_position)).mp h.satisfies
  first j hj b hb hq := h.first j hj b hb ((hpq b (List.mem_of_getElem? hb)).mpr hq)

/-- One more element: the first top element is picked again. -/
theorem FirstAt.pick_snoc (horder : IsOrderOn sign D) {seen : List α} {i : Nat} {best x : α}
    (hseen : ∀ y ∈ seen, y ∈ D) (hx : x ∈ D) (h : FirstAt (IsTop sign seen) seen i best) :
    ∃ j, FirstAt (IsTop sign (seen ++ [x])) (seen ++ [x]) j (pick sign best x) := by
  have hbest : best ∈ seen := List.mem_of_getElem? h.at_position
  have hi : i < seen.length := (List.getElem?_eq_some_iff.mp h.at_position).1
  have hbefore {j : Nat} (hj : j < seen.length) : (seen ++ [x])[j]? = seen[j]? :=
    List.getElem?_append_left hj
  by_cases hgt : sign x best = .gt
  · have hpick : pick sign best x = x := by simp [pick, hgt]
    have hless : sign best x = .lt := by
      rw [horder.swap x hx best (hseen best hbest), hgt]
      rfl
    rw [hpick]
    refine ⟨seen.length, by simp, isTop_snoc.mpr ⟨fun y hy => ?_, ?_⟩, fun j hj b hb htop => ?_⟩
    · exact horder.trans y (hseen y hy) best (hseen best hbest) x hx (h.satisfies y hy)
        (by rw [hless]; rfl)
    · rw [horder.self x hx]
      rfl
    · -- what is above the best element so far is above all others
      rw [hbefore hj] at hb
      have hmem : b ∈ seen := List.mem_of_getElem? hb
      have hle : (sign x best).isLE := horder.trans x hx b (hseen b hmem) best (hseen best hbest)
        (isTop_snoc.mp htop).2 (h.satisfies b hmem)
      rw [hgt] at hle
      cases hle
  · have hpick : pick sign best x = best := by simp [pick, hgt]
    rw [hpick]
    refine ⟨i, by rw [hbefore hi, h.at_position], isTop_snoc.mpr ⟨h.satisfies, ?_⟩,
      fun j hj b hb htop => ?_⟩
    · exact Ordering.isLE_iff_ne_gt.mpr hgt
    · rw [hbefore (Nat.lt_trans hj hi)] at hb
      exact h.first j hj b hb (isTop_snoc.mp htop).1

/-- The fold picks the first top element. -/
theorem firstAt_foldl (horder : IsOrderOn sign D) {seen rest : List α} {i : Nat} {best : α}
    (hseen : ∀ y ∈ seen, y ∈ D) (hrest : ∀ y ∈ rest, y ∈ D)
    (h : FirstAt (IsTop sign seen) seen i best) :
    ∃ j, FirstAt (IsTop sign (seen ++ rest)) (seen ++ rest) j (rest.foldl (pick sign) best) := by
  induction rest generalizing seen i best with
  | nil => exact ⟨i, by simpa using h⟩
  | cons x rest ih =>
      obtain ⟨hx, hrest⟩ := List.forall_mem_cons.mp hrest
      obtain ⟨j, hj⟩ := h.pick_snoc horder hseen hx
      have hmem : ∀ y ∈ seen ++ [x], y ∈ D := by
        intro y hy
        rcases List.mem_append.mp hy with hy | hy
        · exact hseen y hy
        · rwa [List.mem_singleton.mp hy]
      obtain ⟨k, hk⟩ := ih hmem hrest hj
      rw [List.append_assoc] at hk
      exact ⟨k, hk⟩

theorem exists_firstAt_foldl (horder : IsOrderOn sign D) {x : α} {rest : List α} (hx : x ∈ D)
    (hrest : ∀ y ∈ rest, y ∈ D) :
    ∃ i, FirstAt (IsTop sign (x :: rest)) (x :: rest) i (rest.foldl (pick sign) x) := by
  have hfirst : FirstAt (IsTop sign [x]) [x] 0 x := by
    refine ⟨rfl, ?_, fun j hj => absurd hj (Nat.not_lt_zero j)⟩
    simp [IsTop, horder.self x hx]
  exact firstAt_foldl horder (by simpa using hx) hrest hfirst

end First

/-! ## The pass over a sequence -/

section Pass

variable {m : Type → Type} {ω : Type} [Monad m] [LawfulMonad m]
  {sign : Value ω → Value ω → Ordering} {D : Set (Value ω)}

/-- A choice that never fails makes a monadic fold a plain one. -/
theorem foldlM_eq_foldl {choose : Value ω → Value ω → m (Value ω)}
    (hchoose : ∀ a ∈ D, ∀ b ∈ D, choose a b = pure (pick sign a b)) {best : Value ω}
    {rest : List (Value ω)} (hbest : best ∈ D) (hrest : ∀ v ∈ rest, v ∈ D) :
    rest.foldlM choose best = pure (rest.foldl (pick sign) best) := by
  induction rest generalizing best with
  | nil => rfl
  | cons v rest ih =>
      obtain ⟨hv, hrest⟩ := List.forall_mem_cons.mp hrest
      have hpick : pick sign best v ∈ D := by
        unfold pick
        split
        · exact hv
        · exact hbest
      rw [List.foldlM_cons, hchoose best hbest v hv, pure_bind, List.foldl_cons]
      exact ih hpick hrest

variable [MonadExceptOf (Fault ω) m] [Objects ω] {c : Comparator m ω}

/-- The pass is a fold. -/
theorem bestFrom_eq_foldlM (wanted : Ordering) (best : Value ω) (rest : List (Value ω)) :
    bestFrom c wanted best rest
      = rest.foldlM (fun best v => return if ← winsOver c wanted v best then v else best) best := by
  induction rest generalizing best with
  | nil => rfl
  | cons v rest ih => simp only [bestFrom, List.foldlM_cons, ih, bind_assoc, pure_bind]

/-- Where a comparator answers by an order its sign decides. -/
theorem winsOver_eq (hc : c.AnswersBy sign D) (wanted : Ordering) {a b : Value ω} (ha : a ∈ D)
    (hb : b ∈ D) : winsOver c wanted a b = pure (sign a b == wanted) := by
  obtain ⟨x, hx, hsign⟩ := hc a ha b hb
  show (c a b >>= fun v => MonadExcept.ofExcept v.compareZero >>= fun standing =>
    pure (standing == some wanted)) = _
  rw [hx, pure_bind]
  show (MonadExcept.ofExcept (.ok (Number.relate x 0)) >>= fun standing =>
    pure (standing == some wanted)) = _
  rw [hsign]
  exact pure_bind _ _

/-- The pass for the greatest element picks by the order of the comparator. -/
theorem best_gt_eq_foldl (hc : c.AnswersBy sign D) {x : Value ω} {rest : List (Value ω)}
    (hx : x ∈ D) (hrest : ∀ v ∈ rest, v ∈ D) :
    best c .gt (x :: rest) = pure (rest.foldl (pick sign) x) := by
  rw [best, bestFrom_eq_foldlM]
  apply foldlM_eq_foldl _ hx hrest
  intro a ha b hb
  rw [winsOver_eq hc .gt hb ha, pure_bind, pick]

/-- The pass for the least element picks by the order turned round. -/
theorem best_lt_eq_foldl (horder : IsOrderOn sign D) (hc : c.AnswersBy sign D) {x : Value ω}
    {rest : List (Value ω)} (hx : x ∈ D) (hrest : ∀ v ∈ rest, v ∈ D) :
    best c .lt (x :: rest) = pure (rest.foldl (pick fun a b => sign b a) x) := by
  rw [best, bestFrom_eq_foldlM]
  apply foldlM_eq_foldl _ hx hrest
  intro a ha b hb
  have hswap : (sign b a == .lt) = (sign a b == .gt) := by
    rw [horder.swap a ha b hb]
    cases sign a b <;> rfl
  rw [winsOver_eq hc .lt hb ha, pure_bind, pick, hswap]

/-- The greatest element is the first one that no element is above, and it is the least element
by the comparator turned round. -/
theorem exists_greatest [DecidableEq ω] (horder : IsOrderOn sign D) (hc : c.AnswersBy sign D)
    {x : Value ω} {rest : List (Value ω)} (hx : x ∈ D) (hrest : ∀ v ∈ rest, v ∈ D) :
    ∃ i top, FirstAt (IsTop sign (x :: rest)) (x :: rest) i top ∧
      greatest (x :: rest) (.function c) = pure top ∧
      least (x :: rest) (.function c.reverse) = pure top := by
  obtain ⟨i, hi⟩ := exists_firstAt_foldl horder hx hrest
  exact ⟨i, _, hi, best_gt_eq_foldl hc hx hrest,
    best_lt_eq_foldl horder.reverse hc.reverse hx hrest⟩

end Pass

/-! ## Without a comparator -/

section Natural

variable {ω : Type} [DecidableEq ω] [Objects ω] {sign : Value ω → Value ω → Ordering}
  {D : Set (Value ω)}

theorem optionalNatural_answersBy {m : Type → Type} [Monad m] [MonadExceptOf (Fault ω) m]
    (hranked : ∀ a ∈ D, ∀ b ∈ D, Ranked a b (sign a b)) :
    (optionalNatural : Comparator m ω).AnswersBy sign D := by
  intro a ha b hb
  obtain ⟨x, hx, hsign⟩ := hranked a ha b hb
  exact ⟨x, by rw [optionalNatural, hx]; rfl, hsign⟩

theorem larger_eq_pick (horder : IsOrderOn sign D)
    (hranked : ∀ a ∈ D, ∀ b ∈ D, Ranked a b (sign a b)) {a b : Value ω} (ha : a ∈ D) (hb : b ∈ D) :
    larger a b = .ok (pick sign a b) := by
  rw [larger_of_ranked (hranked a ha b hb), pick, horder.swap a ha b hb]
  cases sign a b <;> rfl

theorem smaller_eq_pick (hranked : ∀ a ∈ D, ∀ b ∈ D, Ranked a b (sign a b)) {a b : Value ω}
    (ha : a ∈ D) (hb : b ∈ D) : smaller a b = .ok (pick (fun x y => sign y x) a b) := by
  rw [smaller_of_ranked (hranked a ha b hb), pick]
  cases sign a b <;> rfl

end Natural

/-! ## Main statement -/

section Main

variable {m : Type → Type} {ω : Type} [Monad m] [LawfulMonad m] [MonadExceptOf (Fault ω) m]
  [DecidableEq ω] [Objects ω]

/-- What the greatest and the least element are by a comparator. -/
structure PicksFirst (c : Comparator m ω) (sign : Value ω → Value ω → Ordering)
    (xs : List (Value ω)) : Prop where
  /-- The greatest element is the first one that no element is above. Turning the comparator round
  makes it the least one. -/
  top : ∃ i a, FirstAt (fun a => ∀ x ∈ xs, (sign x a).isLE) xs i a ∧
    greatest xs (.function c) = pure a ∧ least xs (.function c.reverse) = pure a
  /-- The least element is the first one that no element is below. -/
  bottom : ∃ i a, FirstAt (fun a => ∀ x ∈ xs, (sign x a).isGE) xs i a ∧
    least xs (.function c) = pure a ∧ greatest xs (.function c.reverse) = pure a

/-- What they are without a comparator, in whose place an absent value is given. -/
structure FoldsChoices (m : Type → Type) {ω : Type} [Monad m] [MonadExceptOf (Fault ω) m]
    [DecidableEq ω] [Objects ω] (absent x : Value ω) (rest : List (Value ω)) : Prop where
  top : ∃ a, greatest (x :: rest) (.value absent) = (pure a : m (Value ω)) ∧
    rest.foldlM larger x = .ok a
  bottom : ∃ a, least (x :: rest) (.value absent) = (pure a : m (Value ω)) ∧
    rest.foldlM smaller x = .ok a

theorem picksFirst_of_answersBy {c : Comparator m ω} {sign : Value ω → Value ω → Ordering}
    {x : Value ω} {rest : List (Value ω)} (horder : IsOrderOn sign {v | v ∈ x :: rest})
    (hc : c.AnswersBy sign {v | v ∈ x :: rest}) : PicksFirst c sign (x :: rest) := by
  have hx : x ∈ {v | v ∈ x :: rest} := List.mem_cons_self
  have hrest : ∀ v ∈ rest, v ∈ {v | v ∈ x :: rest} := fun v => List.mem_cons_of_mem x
  refine ⟨exists_greatest horder hc hx hrest, ?_⟩
  obtain ⟨i, bottom, hfirst, hgreatest, hleast⟩ :=
    exists_greatest horder.reverse hc.reverse hx hrest
  refine ⟨i, bottom, hfirst.congr fun a ha => ?_, hleast, hgreatest⟩
  have hswap : ∀ y ∈ x :: rest, (sign a y).isLE ↔ (sign y a).isGE := by
    intro y hy
    rw [horder.swap a ha y hy, Ordering.isGE_swap]
  exact forall₂_congr hswap

theorem foldsChoices_of_optional {own : Value ω → Value ω → Ordering} {S : Set (Value ω)}
    {k : OrderClass} {absent x : Value ω} {rest : List (Value ω)} (hlawful : LawfullyOrdered own S)
    (hmem : ∀ v ∈ x :: rest, v ∈ k.optional S) (habsent : absent.isAbsent = true) :
    FoldsChoices m absent x rest := by
  have horder := k.isOrderOn_optional hlawful
  have hranked : ∀ a ∈ k.optional S, ∀ b ∈ k.optional S, Ranked a b (k.optionalSign own a b) :=
    fun _ ha _ hb => OrderClass.ranked_of_optional hlawful ha hb
  have hanswers := optionalNatural_answersBy (m := m) hranked
  obtain ⟨hx, hrest⟩ := List.forall_mem_cons.mp hmem
  have hselector : selector (.value absent) = (optionalNatural : Comparator m ω) := if_pos habsent
  have hlarger : ∀ a ∈ k.optional S, ∀ b ∈ k.optional S,
      larger a b = pure (pick (k.optionalSign own) a b) :=
    fun _ ha _ hb => larger_eq_pick horder hranked ha hb
  have hsmaller : ∀ a ∈ k.optional S, ∀ b ∈ k.optional S,
      smaller a b = pure (pick (fun x y => k.optionalSign own y x) a b) :=
    fun _ ha _ hb => smaller_eq_pick hranked ha hb
  refine ⟨⟨_, ?_, foldlM_eq_foldl hlarger hx hrest⟩, ⟨_, ?_, foldlM_eq_foldl hsmaller hx hrest⟩⟩
  · rw [greatest, hselector]
    exact best_gt_eq_foldl hanswers hx hrest
  · rw [least, hselector]
    exact best_lt_eq_foldl horder hanswers hx hrest

/-- **The greatest element is the first one that no element is above, and the least element the
first one that no element is below**, where the comparator orders the elements; without elements
both are `undefined`. Without a comparator they are what `larger` and `smaller` leave of the
elements of one class and absent ones. -/
theorem greatest_and_least_are_first :
    (∀ argument : Argument ω (Comparator m ω),
      greatest [] argument = pure .undefined ∧ least [] argument = pure .undefined) ∧
    (∀ (c : Comparator m ω) (sign : Value ω → Value ω → Ordering) (xs : List (Value ω)),
      IsOrderOn sign {v | v ∈ xs} → c.AnswersBy sign {v | v ∈ xs} → xs ≠ [] →
        PicksFirst c sign xs) ∧
    ∀ (own : Value ω → Value ω → Ordering) (S : Set (Value ω)) (k : OrderClass)
      (absent x : Value ω) (rest : List (Value ω)), LawfullyOrdered own S →
      (∀ v ∈ x :: rest, v ∈ k.optional S) → absent.isAbsent = true →
        FoldsChoices m absent x rest := by
  refine ⟨fun argument => ⟨rfl, rfl⟩, ?_, ?_⟩
  · intro c sign xs horder hc hne
    cases xs with
    | nil => exact absurd rfl hne
    | cons x rest => exact picksFirst_of_answersBy horder hc
  · intro own S k absent x rest hlawful hmem habsent
    exact foldsChoices_of_optional hlawful hmem habsent

end Main

/-- Numbers by a comparator, and numbers with absent values without one. -/
theorem greatest_and_least_are_first_for_numbers :
    let _ : Objects Item := Catalog.objects #[]
    let c : Comparator (Except (Fault Item)) Item := .natural
    let sign : Value Item → Value Item → Ordering := OrderedKind.number.sign
    let xs : List (Value Item) := [.number 1, .number 3, .number (-0), .number 3]
    let own : Value Item → Value Item → Ordering := fun _ _ => .eq
    let S : Set (Value Item) := {.undefined, .number 5, .null}
    (IsOrderOn sign {v | v ∈ xs} ∧ c.AnswersBy sign {v | v ∈ xs} ∧ xs ≠ []) ∧
      PicksFirst c sign xs ∧
      (LawfullyOrdered own S ∧
        ∀ v ∈ [.undefined, .number 5, .null], v ∈ (OrderClass.kind .number).optional S) ∧
      FoldsChoices (Except (Fault Item)) .null (.undefined : Value Item) [.number 5, .null] := by
  intro _ c sign xs own S
  obtain ⟨-, hfirst, hfolds⟩ :=
    greatest_and_least_are_first (m := Except (Fault Item)) (ω := Item)
  have hmembers : {v | v ∈ xs} ⊆ (OrderedKind.number.members : Set (Value Item)) := by
    intro v hv
    simp only [xs, Set.mem_ofPred_eq, List.mem_cons, List.not_mem_nil, or_false] at hv
    rcases hv with rfl | rfl | rfl | rfl <;> rfl
  have horder : IsOrderOn sign {v | v ∈ xs} := OrderedKind.number.isOrderOn_members.mono hmembers
  have hanswers : c.AnswersBy sign {v | v ∈ xs} :=
    (Comparator.natural_answersBy .number).mono hmembers
  have hne : xs ≠ [] := List.cons_ne_nil _ _
  have hlawful : LawfullyOrdered own S := by
    refine ⟨?_, IsOrderOn.indifferent _⟩
    rintro a (rfl | rfl | rfl) b _ hclass
    all_goals exact absurd hclass (by decide)
  have hoptional : ∀ v ∈ [.undefined, .number 5, .null],
      v ∈ (OrderClass.kind .number).optional S := by
    intro v hv
    simp only [List.mem_cons, List.not_mem_nil, or_false] at hv
    rcases hv with rfl | rfl | rfl
    · exact ⟨by simp [S], .inl rfl⟩
    · exact ⟨by simp [S], .inr rfl⟩
    · exact ⟨by simp [S], .inl rfl⟩
  exact ⟨⟨horder, hanswers, hne⟩, hfirst c sign xs horder hanswers hne, ⟨hlawful, hoptional⟩,
    hfolds own S (.kind .number) .null .undefined _ hlawful hoptional rfl⟩

end Arrange
