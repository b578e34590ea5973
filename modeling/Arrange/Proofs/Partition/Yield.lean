import Arrange.Partition.Feed

/-!
# Sources of a list

`Source.Yields src xs s` says that pulling `src` from the state `s` gives the elements of `xs` one
after another and then the end. What the source would give after its end is left open.

`Feed.Supplies` lists the feeds that end and do not fail, with their elements, and
`Feed.Supplies.yields` shows that they are sources of those elements. The value that goes with the
end of a script is none of them.
-/

set_option autoImplicit false

namespace Arrange

variable {ω σ α : Type}

/-- Pulled again and again, the source gives the elements of a list and then its end. -/
def Source.Yields (src : Source ω σ α) : List α → σ → Prop
  | [], s => (src.pull s).1 = .ok .finished
  | a :: rest, s => ∃ s', src.pull s = (.ok (.element a), s') ∧ src.Yields rest s'

/-- A sink that takes every event without failing. -/
def Sink.NeverFails {τ : Type} (log : Sink ω τ) : Prop :=
  ∀ event t, (log.receive event t).1 = .ok ()

theorem Sink.discard_neverFails {τ : Type} : (Sink.discard : Sink ω τ).NeverFails := fun _ _ => rfl

theorem Sink.recording_neverFails : (Sink.recording : Sink ω (Log PartitionEvent)).NeverFails :=
  fun _ _ => rfl

/-! ## Feeds -/

/-- The answers of a script that hand over elements, each with a flag that does not end it. -/
def Script.handing (entries : List (Value ω × Value ω)) : List (Scripted ω) :=
  entries.map fun entry => .reply (.result entry.1 entry.2)

/-- A sequence that was not read to its end gives the elements from its position on. -/
theorem Feed.yields_items (feed : Feed ω) (i : Items ω) (xs : List (Value ω))
    (hkind : feed.kind = .items i) (hended : i.ended = false)
    (hrest : i.elements.toList.drop i.position = xs) : Feed.source.Yields xs feed := by
  have hget : i.elements[i.position]? = xs.head? := by
    rw [← hrest, List.head?_drop, Array.getElem?_toList]
  -- on the elements that are left, while the position moves on
  induction xs generalizing feed i with
  | nil =>
      show (Feed.source.pull feed).1 = _
      simp only [Feed.source, Feed.advance, hkind, Items.advance, hended, hget]
      rfl
  | cons x xs ih =>
      have hdrop : i.elements.toList.drop (i.position + 1) = xs := by
        rw [← List.drop_drop, hrest, List.drop_one, List.tail_cons]
      refine ⟨{ feed with kind := .items { i with position := i.position + 1 } }, ?_, ?_⟩
      · simp only [Feed.source, Feed.advance, hkind, Items.advance, hended, hget]
        rfl
      · refine ih _ _ rfl hended hdrop ?_
        rw [← hdrop, List.head?_drop, Array.getElem?_toList]

/-- A generator that does not fail gives the elements from its index on. -/
theorem Feed.yields_generator (feed : Feed ω) (g : Generator ω) (elements xs : List (Value ω))
    (hkind : feed.kind = .generator g) (hyields : g.yields = fun i => elements[i]?)
    (hfail : g.failure? = none) (hclose : g.closingFailure? = none) (hphase : g.phase ≠ .ended)
    (hrest : elements.drop g.index = xs) : Feed.source.Yields xs feed := by
  have hget : g.yields g.index = xs.head? := by
    rw [hyields, ← hrest, List.head?_drop]
  induction xs generalizing feed g with
  | nil =>
      show (Feed.source.pull feed).1 = _
      cases hp : g.phase with
      | ended => exact absurd hp hphase
      | fresh =>
          simp only [Feed.source, Feed.advance, hkind, Feed.advanceGenerator, hp, hget,
            Generator.settle, hclose]
          rfl
      | running =>
          simp only [Feed.source, Feed.advance, hkind, Feed.advanceGenerator, hp, hget,
            Generator.settle, hclose]
          rfl
  | cons x xs ih =>
      have hdrop : elements.drop (g.index + 1) = xs := by
        rw [← List.drop_drop, hrest, List.drop_one, List.tail_cons]
      refine ⟨{ feed with
          kind := .generator { g with index := g.index + 1, phase := .running }
          pulls := feed.pulls + 1 }, ?_, ?_⟩
      · cases hp : g.phase with
        | ended => exact absurd hp hphase
        | fresh =>
            simp only [Feed.source, Feed.advance, hkind, Feed.advanceGenerator, hp, hget, hfail,
              List.head?_cons, Feed.advanceGenerator.yielded]
            rfl
        | running =>
            simp only [Feed.source, Feed.advance, hkind, Feed.advanceGenerator, hp, hget, hfail,
              List.head?_cons, Feed.advanceGenerator.yielded]
            rfl
      · refine ih _ _ rfl hyields hfail hclose (by simp) hdrop ?_
        show g.yields (g.index + 1) = _
        rw [hyields, ← hdrop, List.head?_drop]

/-- A reply whose flag is not `true` carries an element, whatever else its flag is. -/
theorem Reply.pulled_of_ne {flag : Value ω} (value : Value ω) (h : flag ≠ .bool true) :
    (Reply.result flag value).pulled = .element value := by
  cases flag with
  | bool b =>
      cases b with
      | true => exact absurd rfl h
      | false => rfl
  | _ => rfl

/-- A script gives its prepared elements up to the answer that ends it. -/
theorem Feed.yields_script (feed : Feed ω) (entries : List (Value ω × Value ω))
    (more : List (Scripted ω)) (afterwards : Scripted ω) (closing : Closing) (last : Value ω)
    (hkind : feed.kind = .script ⟨Script.handing entries ++ more, afterwards, closing⟩)
    (running : ∀ entry ∈ entries, entry.1 ≠ .bool true)
    (ending : more.headD afterwards = .reply (.result (.bool true) last)) :
    Feed.source.Yields (entries.map (·.2)) feed := by
  induction entries generalizing feed with
  | nil =>
      show (Feed.source.pull feed).1 = _
      -- the end is the first answer after the elements, or the one given ever after
      cases more with
      | nil =>
          have hafter : afterwards = .reply (.result (.bool true) last) := ending
          simp only [Feed.source, Feed.advance, hkind, hafter]
          rfl
      | cons answer more =>
          have hanswer : answer = .reply (.result (.bool true) last) := ending
          simp only [Feed.source, Feed.advance, hkind, hanswer]
          rfl
  | cons entry entries ih =>
      have hflag : entry.1 ≠ .bool true := running entry (by simp)
      refine ⟨{ feed with
          kind := .script ⟨Script.handing entries ++ more, afterwards, closing⟩
          pulls := feed.pulls + 1 }, ?_, ?_⟩
      · have hpull : Feed.source.pull feed = (.ok (Reply.result entry.1 entry.2).pulled,
            { feed with
              kind := .script ⟨Script.handing entries ++ more, afterwards, closing⟩
              pulls := feed.pulls + 1 }) := by
          simp only [Feed.source, Feed.advance, hkind]
          rfl
        rw [hpull, Reply.pulled_of_ne entry.2 hflag]
      · exact ih _ rfl fun e he => running e (by simp [he])

/-! ## Feeds that come to their end -/

section Supplies

variable [DecidableEq ω]

/-- The feeds that come to an end without failing, with their elements. A script comes to its end
with the answer after its elements, which is one of the prepared answers or the one given ever
after; that answer may carry a value `last`. -/
inductive Feed.Supplies : Feed ω → List (Value ω) → Prop
  | array (xs : List (Value ω)) : Supplies (.fresh (.items (.ofList xs))) xs
  | set (xs : List (Value ω)) :
      Supplies (.fresh (.items (.ofDistinct xs))) (Items.distinctValues xs)
  | generator (xs : List (Value ω)) : Supplies (.fresh (.generator (.ofList xs none none))) xs
  | script (entries : List (Value ω × Value ω)) (more : List (Scripted ω)) (afterwards : Scripted ω)
      (closing : Closing) (last : Value ω) (running : ∀ entry ∈ entries, entry.1 ≠ .bool true)
      (ending : more.headD afterwards = .reply (.result (.bool true) last)) :
      Supplies (.fresh (.script ⟨Script.handing entries ++ more, afterwards, closing⟩))
        (entries.map (·.2))

/-- The feeds that end without failing are sources of their elements. -/
theorem Feed.Supplies.yields {feed : Feed ω} {xs : List (Value ω)} (h : feed.Supplies xs) :
    Feed.source.Yields xs feed := by
  cases h with
  | array => exact Feed.yields_items _ (.ofList xs) xs rfl rfl (by simp [Items.ofList])
  | set values =>
      exact Feed.yields_items _ (.ofDistinct values) _ rfl rfl (by simp [Items.ofDistinct])
  | generator =>
      exact Feed.yields_generator _ (.ofList xs none none) xs xs rfl
        (by simp [Generator.ofList]) rfl rfl (by simp [Generator.ofList]) rfl
  | script entries more afterwards closing last running ending =>
      exact Feed.yields_script _ entries more afterwards closing last rfl running ending

end Supplies

end Arrange
