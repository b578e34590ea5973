import Arrange.Catalog
import Arrange.Comparator.Elementary
import Arrange.Proofs.Comparator.Lawful

/-!
# Pushing a reverse inward

A reverse goes inward through every way to make a comparator from others: it turns round which end
absent values rank at, and otherwise passes on to the parts (`reverse_withAbsent`, `reverse_onKey`,
`reverse_inTurn`). So the reverse of an expression is an expression in which the reverses stand
further inside (`Expression.reversed`), and every reverse in an expression can be pushed down to the
leaves (`Expression.pushed`). The leaves may be anything, comparators that fail or give no sensible
number included, and the outcomes are the same, not only their signs. Comparators in turn can be
nested or not, and of ranks for absent values that are put on each other only the outermost counts.
Main statement: `Expression.reverse_goes_inward`.
-/

set_option autoImplicit false

namespace Arrange

variable {ω : Type} {m : Type → Type}

/-! ## The combinators -/

namespace Comparator

variable [Monad m]

section Reverse

theorem reverse_withAbsent (last : Bool) (c : Comparator m ω) :
    reverse (withAbsent last c) = withAbsent (!last) (reverse c) := by
  funext a b
  show withAbsent last c b a = _
  unfold withAbsent
  rw [absentOrder?_not]
  rfl

/-- A key that has an effect could tell which value it is derived from first. -/
theorem reverse_onKey [LawfulMonad m] {key : Key m ω} {k : Value ω → Value ω}
    (hkey : ∀ v, key v = pure (k v)) (c : Comparator m ω) :
    reverse (onKey key c) = onKey key (reverse c) := by
  funext a b
  show onKey key c b a = _
  rw [onKey_eq (hkey b) (hkey a), onKey_eq (hkey a) (hkey b)]
  rfl

theorem breakTie_reverse (result a b : Value ω) (rest : List (Comparator m ω)) :
    breakTie result b a rest = breakTie result a b (rest.map reverse) := by
  induction rest generalizing result with
  | nil => rfl
  | cons c rest ih =>
      have hrest : (fun next => breakTie next b a rest)
          = fun next => breakTie next a b (rest.map reverse) := funext ih
      rw [List.map_cons, breakTie, breakTie, hrest]
      rfl

theorem reverse_inTurn (first : Comparator m ω) (rest : List (Comparator m ω)) :
    reverse (inTurn first rest) = inTurn (reverse first) (rest.map reverse) := by
  funext a b
  have hrest : (fun result => breakTie result b a rest)
      = fun result => breakTie result a b (rest.map reverse) :=
    funext fun result => breakTie_reverse result a b rest
  show (first b a >>= fun result => breakTie result b a rest) = _
  rw [hrest]
  rfl

end Reverse

/-! ## Nesting -/

section Nesting

/-- A present value is not looked at twice. -/
theorem withAbsent_withAbsent (last inner : Bool) (c : Comparator m ω) :
    withAbsent last (withAbsent inner c) = withAbsent last c := by
  funext a b
  unfold withAbsent
  cases ho : absentOrder? a b last with
  | some o => rfl
  | none =>
      have hinner : absentOrder? a b inner = none :=
        absentOrder?_eq_none_iff.mpr (absentOrder?_eq_none_iff.mp ho)
      simp only [hinner]

theorem withAbsent_foldr (last : Bool) (inner : List Bool) (c : Comparator m ω) :
    withAbsent last (inner.foldr withAbsent c) = withAbsent last c := by
  induction inner with
  | nil => rfl
  | cons next inner ih =>
      rw [List.foldr_cons, withAbsent_withAbsent, ih]

variable {result a b : Value ω} {rest : List (Comparator m ω)}

theorem breakTie_of_isZero (c : Comparator m ω) (h : result.isZero = true) :
    breakTie result a b (c :: rest) = c a b >>= fun next => breakTie next a b rest := by
  rw [breakTie, if_pos h]

/-- A result that is not zero stays. -/
theorem breakTie_of_not_isZero (h : ¬result.isZero = true) :
    breakTie result a b rest = pure result := by
  cases rest with
  | nil => rfl
  | cons c rest => rw [breakTie, if_neg h]

variable [LawfulMonad m]

theorem breakTie_append (result a b : Value ω) (before after : List (Comparator m ω)) :
    breakTie result a b (before ++ after)
      = breakTie result a b before >>= fun next => breakTie next a b after := by
  induction before generalizing result with
  | nil => rw [List.nil_append, breakTie, pure_bind]
  | cons c before ih =>
      rw [List.cons_append]
      by_cases hzero : result.isZero = true
      · simp only [breakTie_of_isZero c hzero, ih, bind_assoc]
      · -- nothing is asked in either list
        rw [breakTie_of_not_isZero hzero, breakTie_of_not_isZero hzero, pure_bind,
          breakTie_of_not_isZero hzero]

/-- Comparators in turn that come first are asked like the others. -/
theorem inTurn_first (d : Comparator m ω) (ds rest : List (Comparator m ω)) :
    inTurn (inTurn d ds) rest = inTurn d (ds ++ rest) := by
  funext a b
  show ((d a b >>= fun result => breakTie result a b ds) >>= fun next => breakTie next a b rest)
    = (d a b >>= fun result => breakTie result a b (ds ++ rest))
  simp only [bind_assoc, breakTie_append]

theorem breakTie_inTurn (result a b : Value ω) (d : Comparator m ω)
    (ds after : List (Comparator m ω)) :
    breakTie result a b (inTurn d ds :: after) = breakTie result a b (d :: ds ++ after) := by
  rw [List.cons_append]
  by_cases hzero : result.isZero = true
  · rw [breakTie_of_isZero _ hzero, breakTie_of_isZero _ hzero]
    exact congrFun (congrFun (inTurn_first d ds after) a) b
  · rw [breakTie_of_not_isZero hzero, breakTie_of_not_isZero hzero]

/-- Comparators in turn behind others are asked like them. -/
theorem inTurn_later (first d : Comparator m ω) (before ds after : List (Comparator m ω)) :
    inTurn first (before ++ inTurn d ds :: after)
      = inTurn first (before ++ (d :: ds ++ after)) := by
  funext a b
  unfold inTurn
  simp only [breakTie_append _ _ _ before, ← breakTie_inTurn]
  rfl

end Nesting

end Comparator

/-! ## Expressions -/

namespace Expression

section Pushing

mutual

/-- The reverse of an expression, pushed inward. Two reverses on each other cancel out. -/
def reversed : Expression m ω → Expression m ω
  | leaf c => reverse (leaf c)
  | reverse e => e
  | absentFirst e => absentLast e.reversed
  | absentLast e => absentFirst e.reversed
  | onKey key e => onKey key e.reversed
  | inTurn first rest => inTurn first.reversed (allReversed rest)

/-- The reverses of expressions, pushed inward. -/
def allReversed : List (Expression m ω) → List (Expression m ω)
  | [] => []
  | e :: rest => e.reversed :: allReversed rest

end

mutual

/-- An expression with every reverse in it pushed inward. -/
def pushed : Expression m ω → Expression m ω
  | leaf c => leaf c
  | reverse e => e.pushed.reversed
  | absentFirst e => absentFirst e.pushed
  | absentLast e => absentLast e.pushed
  | onKey key e => onKey key e.pushed
  | inTurn first rest => inTurn first.pushed (allPushed rest)

/-- Expressions with every reverse in them pushed inward. -/
def allPushed : List (Expression m ω) → List (Expression m ω)
  | [] => []
  | e :: rest => e.pushed :: allPushed rest

end

mutual

/-- The keys of an expression are among `keys`, and what its reverses stand on is among `bases`. -/
def BuiltFrom (keys : Set (Key m ω)) (bases : Set (Expression m ω)) : Expression m ω → Prop
  | leaf _ => True
  | reverse e => e ∈ bases ∧ e.BuiltFrom keys bases
  | absentFirst e => e.BuiltFrom keys bases
  | absentLast e => e.BuiltFrom keys bases
  | onKey key e => key ∈ keys ∧ e.BuiltFrom keys bases
  | inTurn first rest => first.BuiltFrom keys bases ∧ AllBuiltFrom keys bases rest

/-- The same of every expression of a list. -/
def AllBuiltFrom (keys : Set (Key m ω)) (bases : Set (Expression m ω)) :
    List (Expression m ω) → Prop
  | [] => True
  | e :: rest => e.BuiltFrom keys bases ∧ AllBuiltFrom keys bases rest

end

/-- The expressions without structure. -/
def leaves : Set (Expression m ω) := Set.range leaf

/-- The keys that are derived without failing and without any other effect. -/
def pureKeys [Monad m] : Set (Key m ω) :=
  {key | ∃ k : Value ω → Value ω, ∀ v, key v = pure (k v)}

end Pushing

/-! ### Where the reverses stand -/

section Bases

variable {keys : Set (Key m ω)} {bases : Set (Expression m ω)}

mutual

theorem BuiltFrom.reversed {e : Expression m ω} (h : e.BuiltFrom keys leaves) :
    e.reversed.BuiltFrom keys leaves := by
  match e with
  | leaf c => exact ⟨Set.mem_range_self c, trivial⟩
  | .reverse e =>
      -- the two reverses cancel out
      exact h.2
  | absentFirst e => exact BuiltFrom.reversed (e := e) h
  | absentLast e => exact BuiltFrom.reversed (e := e) h
  | onKey key e => exact ⟨h.1, h.2.reversed⟩
  | inTurn first rest => exact ⟨h.1.reversed, h.2.reversed⟩

theorem AllBuiltFrom.reversed {es : List (Expression m ω)} (h : AllBuiltFrom keys leaves es) :
    AllBuiltFrom keys leaves (allReversed es) := by
  match es with
  | [] => exact trivial
  | e :: rest => exact ⟨h.1.reversed, AllBuiltFrom.reversed h.2⟩

end

mutual

/-- Wherever the reverses stand, they are pushed down to the leaves. -/
theorem BuiltFrom.pushed {e : Expression m ω} (h : e.BuiltFrom keys bases) :
    e.pushed.BuiltFrom keys leaves := by
  match e with
  | leaf c => exact trivial
  | reverse e => exact h.2.pushed.reversed
  | absentFirst e => exact BuiltFrom.pushed (e := e) h
  | absentLast e => exact BuiltFrom.pushed (e := e) h
  | onKey key e => exact ⟨h.1, h.2.pushed⟩
  | inTurn first rest => exact ⟨h.1.pushed, AllBuiltFrom.pushed h.2⟩

theorem AllBuiltFrom.pushed {es : List (Expression m ω)} (h : AllBuiltFrom keys bases es) :
    AllBuiltFrom keys leaves (allPushed es) := by
  match es with
  | [] => exact trivial
  | e :: rest => exact ⟨h.1.pushed, AllBuiltFrom.pushed h.2⟩

end

end Bases

/-! ### What the comparators are -/

section Meaning

variable [Monad m] {bases : Set (Expression m ω)}

mutual

theorem BuiltFrom.comparator_reversed [LawfulMonad m] {e : Expression m ω}
    (h : e.BuiltFrom pureKeys bases) :
    e.reversed.comparator = Comparator.reverse e.comparator := by
  match e with
  | leaf c => rfl
  | reverse e => rfl
  | absentFirst e =>
      have ih : e.reversed.comparator = _ := BuiltFrom.comparator_reversed h
      show Comparator.withAbsent true e.reversed.comparator = _
      rw [ih]
      exact (Comparator.reverse_withAbsent false e.comparator).symm
  | absentLast e =>
      have ih : e.reversed.comparator = _ := BuiltFrom.comparator_reversed h
      show Comparator.withAbsent false e.reversed.comparator = _
      rw [ih]
      exact (Comparator.reverse_withAbsent true e.comparator).symm
  | onKey key e =>
      obtain ⟨⟨k, hkey⟩, he⟩ := h
      rw [Expression.reversed, comparator, comparator, he.comparator_reversed,
        Comparator.reverse_onKey hkey]
  | inTurn first rest =>
      rw [Expression.reversed, comparator, comparator, h.1.comparator_reversed,
        AllBuiltFrom.comparators_reversed h.2, Comparator.reverse_inTurn]

theorem AllBuiltFrom.comparators_reversed [LawfulMonad m] {es : List (Expression m ω)}
    (h : AllBuiltFrom pureKeys bases es) :
    comparators (allReversed es) = (comparators es).map Comparator.reverse := by
  match es with
  | [] => rfl
  | e :: rest =>
      rw [allReversed, comparators, comparators, h.1.comparator_reversed,
        AllBuiltFrom.comparators_reversed h.2, List.map_cons]

end

mutual

theorem BuiltFrom.comparator_pushed [LawfulMonad m] {e : Expression m ω}
    (h : e.BuiltFrom pureKeys bases) : e.pushed.comparator = e.comparator := by
  match e with
  | leaf c => rfl
  | reverse e =>
      rw [Expression.pushed, h.2.pushed.comparator_reversed, h.2.comparator_pushed, comparator]
  | absentFirst e =>
      have ih : e.pushed.comparator = e.comparator := BuiltFrom.comparator_pushed h
      rw [Expression.pushed, comparator, comparator, ih]
  | absentLast e =>
      have ih : e.pushed.comparator = e.comparator := BuiltFrom.comparator_pushed h
      rw [Expression.pushed, comparator, comparator, ih]
  | onKey key e => rw [Expression.pushed, comparator, comparator, h.2.comparator_pushed]
  | inTurn first rest =>
      rw [Expression.pushed, comparator, comparator, h.1.comparator_pushed,
        AllBuiltFrom.comparators_pushed h.2]

theorem AllBuiltFrom.comparators_pushed [LawfulMonad m] {es : List (Expression m ω)}
    (h : AllBuiltFrom pureKeys bases es) : comparators (allPushed es) = comparators es := by
  match es with
  | [] => rfl
  | e :: rest =>
      rw [allPushed, comparators, comparators, h.1.comparator_pushed,
        AllBuiltFrom.comparators_pushed h.2]

end

end Meaning

/-- **A reverse goes inward.** For expressions with keys that are derived without failing: pushing
the reverse of an expression inward gives an expression for the same comparator, which gives the
same results and fails in the same ways, and every reverse can be pushed so down to a leaf. The
leaves may be any comparators. Comparators in turn that stand among comparators in turn, at the
first place or a later one, can be listed with them, and of ranks for absent values put on each
other the outermost decides alone. -/
theorem reverse_goes_inward [Monad m] [LawfulMonad m] :
    (∀ e : Expression m ω, e.BuiltFrom pureKeys Set.univ →
      e.reversed.comparator = (reverse e).comparator ∧
      e.pushed.BuiltFrom pureKeys leaves ∧ e.pushed.comparator = e.comparator) ∧
    (∀ (d : Comparator m ω) (ds rest : List (Comparator m ω)),
      Comparator.inTurn (Comparator.inTurn d ds) rest = Comparator.inTurn d (ds ++ rest)) ∧
    (∀ (first d : Comparator m ω) (before ds after : List (Comparator m ω)),
      Comparator.inTurn first (before ++ Comparator.inTurn d ds :: after)
        = Comparator.inTurn first (before ++ (d :: ds ++ after))) ∧
    ∀ (last : Bool) (inner : List Bool) (c : Comparator m ω),
      Comparator.withAbsent last (inner.foldr Comparator.withAbsent c)
        = Comparator.withAbsent last c := by
  refine ⟨fun e he => ⟨?_, he.pushed, he.comparator_pushed⟩, Comparator.inTurn_first,
    Comparator.inTurn_later, Comparator.withAbsent_foldr⟩
  exact he.comparator_reversed

/-- Comparators that differ, do not fail or give NaN, under ranks, keys and each other. -/
theorem reverse_goes_inward_for_differences_and_failures :
    let _ : Objects Item := Catalog.objects #[]
    let later : Expression (Except (Fault Item)) Item :=
      onKey (Key.field "size") (reverse (absentLast (leaf Comparator.natural)))
    let e : Expression (Except (Fault Item)) Item :=
      inTurn (absentFirst (leaf Comparator.difference)) [later, leaf (Comparator.failing "tie")]
    e.BuiltFrom pureKeys Set.univ ∧ e.reversed.comparator = (reverse e).comparator ∧
      e.pushed.BuiltFrom pureKeys leaves ∧
      (reverse e).comparator .null (.number 1) = .ok (.number 1) ∧
      (reverse e).comparator (.number Number.nan) (.number 1) = .ok (.number Number.nan) ∧
      (reverse e).comparator (.number 2) (.number 2) = .error (.raised "tie") := by
  intro _ later e
  have he : e.BuiltFrom pureKeys Set.univ :=
    ⟨trivial, ⟨⟨_, fun _ => rfl⟩, trivial, trivial⟩, trivial, trivial⟩
  obtain ⟨hreversed, hleaves, -⟩ := reverse_goes_inward.1 e he
  refine ⟨he, hreversed, hleaves, ?_⟩
  rw [← hreversed]
  exact ⟨rfl, rfl, rfl⟩

end Expression

end Arrange
