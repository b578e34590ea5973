import Arrange.Proofs.Partition.Record

/-!
# What one call does

`Step` lists all that a call can do, whatever the source and the log: it finds the partitioner at
its end, holds an element ahead, reports the end, hands out a partition, breaks off, or closes the
source. Each case says what was asked of the source, what was logged, the answer and the state
after it. Every call is such a step (`perform_step`).

A `History` is a run call by call, over a source with a record. What each step keeps, the history
keeps (`History.Runs.invariant`).
-/

set_option autoImplicit false

namespace Arrange

variable {ω σ τ α : Type}

namespace SourceCall

/-! ## Calls that break off -/

/-- What a call that fails with `fault` has asked of the source: nothing, when an answer that cannot
be read was kept; else elements, and then an answer that cannot be used. -/
inductive BreaksOff (fault : Fault ω) : List (SourceCall ω α) → Prop
  | kept (hfault : fault = .illTyped) : BreaksOff fault []
  | pulled (xs : List α) (outcome : Except (Fault ω) (Pulled α))
      (helement : element? (.pull outcome) = none) (hend : tellsEnd (.pull outcome) = false)
      (hfault : fault = faultOf outcome) : BreaksOff fault (handing xs ++ [.pull outcome])

namespace BreaksOff

variable {fault : Fault ω} {asked : List (SourceCall ω α)}

theorem endTold_eq (h : BreaksOff fault asked) : endTold asked = false := by
  cases h with
  | kept => rfl
  | pulled xs outcome _ hend =>
      rw [endTold_append, endTold_handing, Bool.false_or]
      simp only [endTold, List.any_cons, List.any_nil, hend, Bool.or_false]

theorem closings_eq (h : BreaksOff fault asked) : closings asked = 0 := by
  cases h with
  | kept => rfl
  | pulled => simp

/-- The fault is that of the source, if the source failed at all. -/
theorem fault_cases (h : BreaksOff fault asked) :
    fault = .illTyped ∨ .pull (.error fault) ∈ asked := by
  cases h with
  | kept hfault => exact .inl hfault
  | pulled xs outcome _ _ hfault =>
      cases outcome with
      | ok _ => exact .inl hfault
      | error own =>
          have hsame : fault = own := hfault
          rw [hsame]
          exact .inr (by simp)

theorem eq_of_mem (h : BreaksOff fault asked) {own : Fault ω}
    (hmem : .pull (.error own) ∈ asked) : own = fault := by
  cases h with
  | kept => cases hmem
  | pulled xs outcome _ _ hfault =>
      have houtcome : outcome = .error own := by simpa [handing, eq_comm] using hmem
      rw [hfault, houtcome]
      rfl

theorem close_not_mem (h : BreaksOff fault asked) (outcome : Except (Fault ω) Unit) :
    .close outcome ∉ asked := by
  cases h with
  | kept => simp
  | pulled => simp [handing]

end BreaksOff

end SourceCall

namespace Partitioner

open SourceCall

/-! ## Steps -/

/-- What an operation says at the end, after so many partitions. -/
def Operation.endAnswer (partitions : Nat) : Operation → Answer ω α
  | .hasMore => .more false
  | .next => .exhausted
  | .nextOrFail => .failed (.noPartitionsRemain partitions)
  | .stop => .stopped

/-- All that a call on `p` can do: what it asks of the source, its answer, and the state after it.
In each case `r` is the source afterwards, with its record. -/
inductive Step (log : Sink ω τ) (p : Partitioner (Recorded ω σ α) τ α) :
    Operation → List (SourceCall ω α) → Answer ω α → Partitioner (Recorded ω σ α) τ α → Prop
  /-- The partitioner is at its end, and stays as it is. -/
  | settled (op : Operation) (hend : p.ended = true) :
      Step log p op [] (op.endAnswer p.partitions) p
  /-- An element is held ahead, from before or from now on. -/
  | looked (a : α) (xs : List α) (r : Recorded ω σ α) (hend : p.ended = false)
      (hopen : p.ahead ≠ some .finished) (hheld : p.held ++ xs = [a])
      (hcalls : r.calls = p.source.calls ++ handing xs) :
      Step log p .hasMore (handing xs) (.more true)
        { p with source := r, ahead := some (.element a) }
  /-- The end is reported, which the source tells now or has told before. -/
  | reported (op : Operation) (told : Bool) (r : Recorded ω σ α) (hop : op ≠ .stop)
      (hend : p.ended = false) (hahead : p.ahead = if told then none else some .finished)
      (hcalls : r.calls = p.source.calls ++ ending told) :
      Step log p op (ending told)
        (answerOf (fun _ => op.endAnswer p.partitions)
          (log.receive (.exhausted p.partitions p.elements) p.sink).1)
        { p with
          source := r
          sink := (log.receive (.exhausted p.partitions p.elements) p.sink).2
          ended := true
          ahead := none }
  /-- A partition is filled. When it is not full, the source has told its end. -/
  | filled (op : Operation) (xs chunk : List α) (r : Recorded ω σ α)
      (hop : op = .next ∨ op = .nextOrFail) (hend : p.ended = false)
      (hopen : p.ahead ≠ some .finished) (hchunk : p.held ++ xs = chunk) (hne : chunk ≠ [])
      (hle : chunk.length ≤ p.size.toNat)
      (hcalls : r.calls
        = p.source.calls ++ (handing xs ++ ending (decide (chunk.length < p.size.toNat)))) :
      Step log p op (handing xs ++ ending (decide (chunk.length < p.size.toNat)))
        (answerOf (fun _ => .partition chunk)
          (log.receive (.emitted p.partitions chunk.length) p.sink).1)
        { p with
          source := r
          ahead := if chunk.length < p.size.toNat then some .finished else none
          elements := p.elements + chunk.length
          sink := (log.receive (.emitted p.partitions chunk.length) p.sink).2
          partitions := p.partitions
            + (log.receive (.emitted p.partitions chunk.length) p.sink).1.isOk.toNat }
  /-- The call fails, and no element is held ahead. -/
  | broken (op : Operation) (fault : Fault ω) (asked : List (SourceCall ω α)) (r : Recorded ω σ α)
      (ahead : Option (Pulled α)) (hop : op ≠ .stop) (hend : p.ended = false)
      (hopen : p.ahead ≠ some .finished) (hasked : BreaksOff fault asked)
      (hcalls : r.calls = p.source.calls ++ asked)
      (hahead : ahead = none ∨ ahead = some .unreadable) :
      Step log p op asked (.failed fault) { p with source := r, ahead }
  /-- The source is closed. -/
  | closed (outcome : Except (Fault ω) Unit) (r : Recorded ω σ α) (hend : p.ended = false)
      (hcalls : r.calls = p.source.calls ++ [.close outcome]) :
      Step log p .stop [.close outcome] (answerOf (fun _ => .stopped) outcome)
        { p with source := r, ended := true, ahead := none }

theorem Step.calls_eq {log : Sink ω τ} {op : Operation} {asked : List (SourceCall ω α)}
    {answer : Answer ω α} {p q : Partitioner (Recorded ω σ α) τ α}
    (h : Step log p op asked answer q) : q.source.calls = p.source.calls ++ asked := by
  cases h with
  | settled => exact (List.append_nil _).symm
  | looked _ _ _ _ _ _ hcalls => exact hcalls
  | reported _ _ _ _ _ _ hcalls => exact hcalls
  | filled _ _ _ _ _ _ _ _ _ _ hcalls => exact hcalls
  | broken _ _ _ _ _ _ _ _ _ hcalls => exact hcalls
  | closed _ _ _ hcalls => exact hcalls

/-! ## Looking ahead -/

/-- All that looking ahead can do: the cases of `Step` with the outcome instead of the answer. -/
inductive Looking (log : Sink ω τ) (p : Partitioner (Recorded ω σ α) τ α) :
    Outcome ω (Recorded ω σ α) τ α Bool → Prop
  | settled (hend : p.ended = true) : Looking log p (.ok false, p)
  | looked (a : α) (xs : List α) (r : Recorded ω σ α) (hend : p.ended = false)
      (hopen : p.ahead ≠ some .finished) (hheld : p.held ++ xs = [a])
      (hcalls : r.calls = p.source.calls ++ handing xs) :
      Looking log p (.ok true, { p with source := r, ahead := some (.element a) })
  | reported (told : Bool) (r : Recorded ω σ α) (hend : p.ended = false)
      (hahead : p.ahead = if told then none else some .finished)
      (hcalls : r.calls = p.source.calls ++ ending told) :
      Looking log p
        ((log.receive (.exhausted p.partitions p.elements) p.sink).1.map fun _ => false, { p with
          source := r
          sink := (log.receive (.exhausted p.partitions p.elements) p.sink).2
          ended := true
          ahead := none })
  | broken (fault : Fault ω) (asked : List (SourceCall ω α)) (r : Recorded ω σ α)
      (ahead : Option (Pulled α)) (hend : p.ended = false) (hopen : p.ahead ≠ some .finished)
      (hasked : BreaksOff fault asked) (hcalls : r.calls = p.source.calls ++ asked)
      (hahead : ahead = none ∨ ahead = some .unreadable) :
      Looking log p (.error fault, { p with source := r, ahead })

section

variable {log : Sink ω τ} {p q : Partitioner (Recorded ω σ α) τ α}

theorem hasMore_looking (src : Source ω σ α) (log : Sink ω τ)
    (p : Partitioner (Recorded ω σ α) τ α) : Looking log p (hasMore src.recorded log p) := by
  cases hend : p.ended with
  | true =>
      rw [hasMore_of_ended hend]
      exact .settled hend
  | false =>
      cases hahead : p.ahead with
      | some answer =>
          have hsame : p.source.calls = p.source.calls ++ [] := (List.append_nil _).symm
          rw [hasMore_of_ahead hend hahead]
          cases answer with
          | element a => exact .looked a [] _ hend (by simp [hahead]) (by simp [held, hahead]) hsame
          | finished =>
              rw [inspect, reportEnd_eq]
              exact .reported false _ hend hahead hsame
          | blank => exact .broken _ [] _ _ hend (by simp [hahead]) (.kept rfl) hsame (.inl rfl)
          | unreadable =>
              exact .broken _ [] _ _ hend (by simp [hahead]) (.kept rfl) hsame (.inr rfl)
      | none =>
          have hopen : p.ahead ≠ some .finished := by simp [hahead]
          rcases hpull : src.pull p.source.state with ⟨outcome, s⟩
          have hrecord := Source.recorded_pull hpull
          -- an answer that cannot be used is the only call of a step that fails
          have hbroken (helement : element? (.pull outcome) = none)
              (htells : tellsEnd (.pull outcome) = false) :
              BreaksOff (faultOf outcome) [.pull outcome] :=
            .pulled [] outcome helement htells rfl
          cases outcome with
          | error fault =>
              rw [hasMore_of_broken hend hahead hrecord]
              exact .broken fault _ _ _ hend hopen (hbroken rfl rfl) rfl (.inl hahead)
          | ok answer =>
              rw [hasMore_of_pull hend hahead hrecord]
              cases answer with
              | element a => exact .looked a [a] _ hend hopen (by simp [held, hahead]) rfl
              | finished =>
                  rw [inspect, reportEnd_eq]
                  exact .reported true _ hend hahead rfl
              | blank => exact .broken _ _ _ _ hend hopen (hbroken rfl rfl) rfl (.inl rfl)
              | unreadable => exact .broken _ _ _ _ hend hopen (hbroken rfl rfl) rfl (.inr rfl)

/-! ## One call -/

theorem answerOf_map {β γ : Type} (told : γ → Answer ω α) (f : β → γ)
    (outcome : Except (Fault ω) β) :
    answerOf told (outcome.map f) = answerOf (fun b => told (f b)) outcome := by
  cases outcome <;> rfl

/-- The answer of `nextOrFail` where `next` gives this one. -/
def Answer.insist (partitions : Nat) : Answer ω α → Answer ω α
  | .exhausted => .failed (.noPartitionsRemain partitions)
  | answer => answer

theorem insist_answerOf {β : Type} (partitions : Nat) (told : β → Answer ω α)
    (outcome : Except (Fault ω) β) :
    (answerOf told outcome).insist partitions
      = answerOf (fun b => (told b).insist partitions) outcome := by
  cases outcome <;> rfl

theorem perform_nextOrFail (src : Source ω σ α) (log : Sink ω τ) (p : Partitioner σ τ α) :
    perform src log .nextOrFail p
      = ((perform src log .next p).1.insist (perform src log .next p).2.partitions,
        (perform src log .next p).2) := by
  simp only [perform, nextOrFail]
  rcases next src log p with ⟨_ | _ | _, _⟩ <;> rfl

/-- What `next` can do `nextOrFail` can do too, but it fails at the end. -/
theorem Step.nextOrFail {asked : List (SourceCall ω α)} {answer : Answer ω α}
    (h : Step log p .next asked answer q) :
    Step log p .nextOrFail asked (answer.insist q.partitions) q := by
  cases h with
  | settled _ hend => exact .settled .nextOrFail hend
  | reported _ told r hop hend hahead hcalls =>
      rw [insist_answerOf]
      exact .reported .nextOrFail told r (by decide) hend hahead hcalls
  | filled _ xs chunk r hop hend hopen hchunk hne hle hcalls =>
      rw [insist_answerOf]
      exact .filled .nextOrFail xs chunk r (.inr rfl) hend hopen hchunk hne hle hcalls
  | broken _ fault asked r ahead hop hend hopen hasked hcalls hahead =>
      exact .broken .nextOrFail fault asked r ahead (by decide) hend hopen hasked hcalls hahead

/-- The element that is held opens the partition, and up to its size the source gives the rest. -/
theorem fill_step (src : Source ω σ α) {a : α} {xs : List α} {r : Recorded ω σ α}
    (hend : p.ended = false) (hopen : p.ahead ≠ some .finished) (hheld : p.held ++ xs = [a])
    (hcalls : r.calls = p.source.calls ++ handing xs) :
    ∃ outcome asked q, fill src.recorded log a { p with source := r, ahead := some (.element a) }
        = (outcome, q) ∧ Step log p .next asked (answerOf nextAnswer outcome) q := by
  have hpos := p.size.pos
  have hread := gather_recorded src (p.size.toNat - 1) r
  rcases hgather : gather src.recorded (p.size.toNat - 1) r with ⟨result, source⟩
  rw [hgather] at hread
  have hchunk (rest : List α) : p.held ++ (xs ++ rest) = a :: rest := by
    rw [← List.append_assoc, hheld, List.singleton_append]
  have hcalls' (rest : List α) (last : List (SourceCall ω α)) : r.calls ++ handing rest ++ last
      = p.source.calls ++ (handing (xs ++ rest) ++ last) := by
    rw [hcalls, handing_append]
    simp only [List.append_assoc]
  cases hread with
  | full rest hlength =>
      have hfull : ¬ (a :: rest).length < p.size.toNat := by
        rw [List.length_cons]
        omega
      have h : Step log p .next _ _ _ := .filled .next (xs ++ rest) (a :: rest)
        ⟨src.after rest.length r.state, r.calls ++ handing rest⟩ (.inl rfl) hend hopen (hchunk rest)
        (by simp) (by rw [List.length_cons]; omega)
        (by rw [decide_eq_false hfull]; simpa [ending] using hcalls' rest [])
      refine ⟨_, handing (xs ++ rest) ++ ending (decide ((a :: rest).length < p.size.toNat)), _,
        (fill_of_gather hgather).trans (emit_eq _ _ _), ?_⟩
      rw [answerOf_map]
      rw [if_neg hfull] at h
      exact h
  | short rest hlength =>
      have hshort : (a :: rest).length < p.size.toNat := by
        rw [List.length_cons]
        omega
      have h : Step log p .next _ _ _ := .filled .next (xs ++ rest) (a :: rest)
        ⟨src.after (rest.length + 1) r.state, r.calls ++ handing rest ++ [.pull (.ok .finished)]⟩
        (.inl rfl) hend hopen (hchunk rest) (by simp) (Nat.le_of_lt hshort)
        (by rw [decide_eq_true hshort]; exact hcalls' rest _)
      refine ⟨_, handing (xs ++ rest) ++ ending (decide ((a :: rest).length < p.size.toNat)), _,
        (fill_of_gather hgather).trans (emit_eq _ _ _), ?_⟩
      rw [answerOf_map]
      rw [if_pos hshort] at h
      exact h
  | broken rest fault hlength hbroken hfault =>
      have hasked : BreaksOff fault (handing (xs ++ rest)
          ++ [.pull (src.pull (src.after rest.length r.state)).1]) :=
        .pulled _ _ (Source.no_element_of_not_answersAt hbroken)
          (Source.not_tellsEnd_of_not_answersAt hbroken) hfault
      exact ⟨_, _, _, fill_of_broken hgather,
        .broken .next fault _ _ none (by decide) hend hopen hasked (hcalls' rest _) (.inl rfl)⟩

theorem next_step (src : Source ω σ α) (log : Sink ω τ) (p : Partitioner (Recorded ω σ α) τ α) :
    ∃ outcome asked q, next src.recorded log p = (outcome, q) ∧
      Step log p .next asked (answerOf nextAnswer outcome) q := by
  have hlooking := hasMore_looking src log p
  rcases hmore : hasMore src.recorded log p with ⟨found, q⟩
  rw [hmore] at hlooking
  cases hlooking with
  | settled hend => exact ⟨.ok none, [], p, by simp [next, hmore], .settled .next hend⟩
  | looked a xs r hend hopen hheld hcalls =>
      rw [next_of_more hmore rfl]
      exact fill_step src hend hopen hheld hcalls
  | reported told r hend hahead hcalls =>
      refine ⟨_, ending told, _, next_of_end hmore, ?_⟩
      rw [answerOf_map]
      exact .reported .next told r (by decide) hend hahead hcalls
  | broken fault asked r ahead hend hopen hasked hcalls hahead =>
      exact ⟨.error fault, asked, _, by simp [next, hmore],
        .broken .next fault asked r ahead (by decide) hend hopen hasked hcalls hahead⟩

/-- **Every call is a step.** -/
theorem perform_step (src : Source ω σ α) (log : Sink ω τ) (op : Operation)
    (p : Partitioner (Recorded ω σ α) τ α) :
    ∃ asked, Step log p op asked (perform src.recorded log op p).1
      (perform src.recorded log op p).2 := by
  have hnext : ∃ asked, Step log p .next asked (perform src.recorded log .next p).1
      (perform src.recorded log .next p).2 := by
    obtain ⟨outcome, asked, q, hq, hstep⟩ := next_step src log p
    rw [perform, hq]
    exact ⟨asked, hstep⟩
  cases op with
  | hasMore =>
      have hlooking := hasMore_looking src log p
      rcases hmore : hasMore src.recorded log p with ⟨found, q⟩
      rw [hmore] at hlooking
      rw [perform, hmore]
      cases hlooking with
      | settled hend => exact ⟨[], .settled .hasMore hend⟩
      | looked a xs r hend hopen hheld hcalls => exact ⟨_, .looked a xs r hend hopen hheld hcalls⟩
      | reported told r hend hahead hcalls =>
          rw [answerOf_map]
          exact ⟨_, .reported .hasMore told r (by decide) hend hahead hcalls⟩
      | broken fault asked r ahead hend hopen hasked hcalls hahead =>
          exact ⟨asked,
            .broken .hasMore fault asked r ahead (by decide) hend hopen hasked hcalls hahead⟩
  | next => exact hnext
  | nextOrFail =>
      obtain ⟨asked, hstep⟩ := hnext
      rw [perform_nextOrFail]
      exact ⟨asked, hstep.nextOrFail⟩
  | stop =>
      cases hend : p.ended with
      | true =>
          have hstop : stop src.recorded p = (.ok (), p) := by simp [stop, hend]
          rw [perform, hstop]
          exact ⟨[], .settled .stop hend⟩
      | false =>
          rcases hclose : src.close p.source.state with ⟨outcome, s⟩
          have hstop : stop src.recorded p = (outcome, { p with
              source := ⟨s, p.source.calls ++ [.close outcome]⟩
              ended := true
              ahead := none }) := by
            simp [stop, hend, Source.recorded, hclose]
          rw [perform, hstop]
          exact ⟨[.close outcome], .closed outcome _ hend rfl⟩

end

/-! ## Histories -/

/-- A run call by call: the operations, their answers, and the state after each number of calls,
with the record of the source. -/
structure History (ω σ τ α : Type) where
  ops : List Operation
  answers : List (Answer ω α)
  after : Nat → Partitioner (Recorded ω σ α) τ α

/-- The history of a run. -/
def history (src : Source ω σ α) (log : Sink ω τ) (ops : List Operation)
    (p : Partitioner σ τ α) : History ω σ τ α where
  ops := ops
  answers := (run src log ops p).1
  after := fun i => recordAfter src log (ops.take i) p

namespace History

variable (h : History ω σ τ α)

/-- The partitions that the first `i` calls handed out. -/
def delivered (i : Nat) : List (List α) := handedOut (h.answers.take i)

/-- What the call at `i` asked of the source. -/
def asked (i : Nat) : List (SourceCall ω α) :=
  (h.after (i + 1)).source.calls.drop (h.after i).source.calls.length

variable {h}

theorem delivered_succ {i : Nat} {answer : Answer ω α} (hanswer : h.answers[i]? = some answer) :
    h.delivered (i + 1) = h.delivered i ++ answer.chunk?.toList := by
  rw [delivered, List.take_add_one, hanswer, Option.toList_some, handedOut_snoc]
  rfl

theorem delivered_succ_of_none {i : Nat} (hnone : h.answers[i]? = none) :
    h.delivered (i + 1) = h.delivered i := by
  rw [delivered, List.take_add_one, hnone, Option.toList_none, List.append_nil]
  rfl

/-- Each call is a step from the state before it to the state after it; behind the last call nothing
happens. -/
structure Runs (log : Sink ω τ) (h : History ω σ τ α) : Prop where
  step : ∀ i op, h.ops[i]? = some op → ∃ answer, h.answers[i]? = some answer ∧
    Step log (h.after i) op (h.asked i) answer (h.after (i + 1))
  idle : ∀ i, h.ops[i]? = none → h.answers[i]? = none ∧ h.after (i + 1) = h.after i

theorem Runs.asked_of_idle {log : Sink ω τ} (hruns : h.Runs log) {i : Nat}
    (hop : h.ops[i]? = none) : h.asked i = [] := by
  have hsame := (hruns.idle i hop).2
  rw [asked, hsame, List.drop_length]

/-- Only a call asks something of the source. -/
theorem Runs.exists_step {log : Sink ω τ} (hruns : h.Runs log) {i : Nat} (hne : h.asked i ≠ []) :
    ∃ op answer, h.ops[i]? = some op ∧ h.answers[i]? = some answer ∧
      Step log (h.after i) op (h.asked i) answer (h.after (i + 1)) := by
  cases hop : h.ops[i]? with
  | none => exact absurd (hruns.asked_of_idle hop) hne
  | some op =>
      obtain ⟨answer, hanswer, hstep⟩ := hruns.step i op hop
      exact ⟨op, answer, rfl, hanswer, hstep⟩

/-- What holds before the first call and is kept by every step holds after any number of calls. -/
theorem Runs.invariant {log : Sink ω τ} (hruns : h.Runs log)
    {P : List (List α) → Partitioner (Recorded ω σ α) τ α → Prop} (hstart : P [] (h.after 0))
    (hstep : ∀ chunks p op asked answer q, P chunks p → Step log p op asked answer q →
      P (chunks ++ answer.chunk?.toList) q) (i : Nat) : P (h.delivered i) (h.after i) := by
  induction i with
  | zero => exact hstart
  | succ i ih =>
      cases hop : h.ops[i]? with
      | none =>
          obtain ⟨hnone, hafter⟩ := hruns.idle i hop
          rw [delivered_succ_of_none hnone, hafter]
          exact ih
      | some op =>
          obtain ⟨answer, hanswer, hcall⟩ := hruns.step i op hop
          rw [delivered_succ hanswer]
          exact hstep _ _ op _ answer _ ih hcall

end History

/-- The calls of a run are steps. -/
theorem history_runs (src : Source ω σ α) (log : Sink ω τ) (ops : List Operation)
    (p : Partitioner σ τ α) : (history src log ops p).Runs log where
  step := by
    intro i op hi
    have hop : ops[i]? = some op := hi
    obtain ⟨asked, hstep⟩ := perform_step src log op (recordAfter src log (ops.take i) p)
    rw [← recordAfter_take_succ src log hop] at hstep
    have hasked : (history src log ops p).asked i = asked := by
      show (recordAfter src log (ops.take (i + 1)) p).source.calls.drop _ = asked
      rw [hstep.calls_eq]
      exact List.drop_left
    refine ⟨_, answer_recorded src log hop p, ?_⟩
    rw [hasked]
    exact hstep
  idle := by
    intro i hi
    have hle : ops.length ≤ i := List.getElem?_eq_none_iff.mp hi
    have htake : ops.take (i + 1) = ops.take i := by
      rw [List.take_of_length_le hle, List.take_of_length_le (Nat.le_succ_of_le hle)]
    refine ⟨?_, congrArg (fun ops => recordAfter src log ops p) htake⟩
    show (run src log ops p).1[i]? = none
    rw [getElem?_run, List.getElem?_eq_none hle]
    rfl

end Partitioner

end Arrange
