import Arrange.Catalog
import Arrange.Proofs.Partition.Record
import Arrange.Proofs.Partition.Yield
import Mathlib.Data.List.Induction

/-!
# Pulling on demand

Over a source that does not fail a partitioner pulls once for every element that it hands out, once
more for an element that it holds ahead, and once for the end. An element is held only after
`hasMore` said so, and a source that told its end is left alone. The invariant is `Standing`, which
says for each state of the lookahead what the record of the source looks like. Main statement:
`run_pulls_on_demand`.
-/

set_option autoImplicit false

namespace Arrange

variable {ω σ τ α : Type}

/-! ## Scripts that do not fail -/

/-- A script whose answers can all be read never fails. -/
theorem Feed.neverFails_script (answers : List (Value ω × Value ω)) (afterwards : Value ω × Value ω)
    (closing : Closing) (pulls closings : Nat) :
    Feed.source.NeverFails ⟨.script ⟨Script.handing answers,
      .reply (.result afterwards.1 afterwards.2), closing⟩, pulls, closings⟩ := by
  have hread (flag value : Value ω) : (∃ a, (Reply.result flag value).pulled = .element a) ∨
      (Reply.result flag value).pulled = .finished := by
    by_cases h : flag = .bool true
    · exact .inr (by rw [h]; rfl)
    · exact .inl ⟨value, Reply.pulled_of_ne value h⟩
  intro n
  -- each pull takes an answer off the script, and the one given ever after leaves it as it is
  induction n generalizing answers pulls with
  | zero =>
      cases answers with
      | nil =>
          exact (hread afterwards.1 afterwards.2).imp (fun ⟨a, h⟩ => ⟨a, congrArg _ h⟩) (congrArg _)
      | cons answer answers =>
          exact (hread answer.1 answer.2).imp (fun ⟨a, h⟩ => ⟨a, congrArg _ h⟩) (congrArg _)
  | succ n ih =>
      cases answers with
      | nil => exact ih [] (pulls + 1)
      | cons answer answers => exact ih answers (pulls + 1)

namespace Partitioner

open SourceCall

/-! ## What was asked of the source -/

/-- How the record of a source that does not fail stands to the state of the partitioner. All
elements read went into partitions but one that is held ahead, and the end was the last call. The
end may have been told while a partition was filled; it is then parked until it is reported. -/
inductive Standing (src : Source ω σ α) (p : Partitioner (Recorded ω σ α) τ α) : Prop
  | waiting (xs : List α) (hend : p.ended = false) (hahead : p.ahead = none)
      (hcalls : p.source.calls = handing xs) (hcount : xs.length = p.elements)
      (hsrc : src.NeverFails p.source.state)
  | holding (a : α) (xs : List α) (hend : p.ended = false) (hahead : p.ahead = some (.element a))
      (hcalls : p.source.calls = handing xs) (hcount : xs.length = p.elements + 1)
      (hsrc : src.NeverFails p.source.state)
  | parked (xs : List α) (hend : p.ended = false) (hahead : p.ahead = some .finished)
      (hcalls : p.source.calls = handing xs ++ [.pull (.ok .finished)])
      (hcount : xs.length = p.elements)
  | ended (xs : List α) (hend : p.ended = true) (hahead : p.ahead = none)
      (hcalls : p.source.calls = handing xs ++ [.pull (.ok .finished)])
      (hcount : xs.length = p.elements)

variable {src : Source ω σ α} {p q r : Partitioner (Recorded ω σ α) τ α}

theorem Standing.pulls_eq (h : Standing src p) :
    pulls p.source.calls = p.elements + p.held.length + (endTold p.source.calls).toNat := by
  cases h with
  | waiting xs _ hahead hcalls hcount => simp [hcalls, held, hahead, hcount]
  | holding a xs _ hahead hcalls hcount => simp [hcalls, held, hahead, hcount]
  | parked xs _ hahead hcalls hcount => simp [hcalls, held, hahead, hcount]
  | ended xs _ hahead hcalls hcount => simp [hcalls, held, hahead, hcount]

/-- What the source produced went into partitions, or is held. -/
theorem Standing.length_produced (h : Standing src p) :
    (produced p.source.calls).length = p.elements + p.held.length := by
  have hfinished : produced [(.pull (.ok .finished) : SourceCall ω α)] = [] := rfl
  cases h with
  | waiting xs _ hahead hcalls hcount => simp [hcalls, held, hahead, hcount]
  | holding a xs _ hahead hcalls hcount => simp [hcalls, held, hahead, hcount]
  | parked xs _ hahead hcalls hcount => simp [hcalls, held, hahead, hcount, hfinished]
  | ended xs _ hahead hcalls hcount => simp [hcalls, held, hahead, hcount, hfinished]

/-- The call that told the end was the last one. -/
theorem Standing.end_last (h : Standing src p) {i : Nat}
    (hi : p.source.calls[i]? = some (.pull (.ok .finished))) : i + 1 = p.source.calls.length := by
  -- the calls before the last one handed over elements
  have hhanding (xs : List α) (j : Nat) :
      (handing xs : List (SourceCall ω α))[j]? ≠ some (.pull (.ok .finished)) := by
    simp [handing, List.getElem?_map, Option.map_eq_some_iff]
  have hlast {xs : List α} (hcalls : p.source.calls = handing xs ++ [.pull (.ok .finished)]) :
      i + 1 = p.source.calls.length := by
    obtain ⟨hlt, -⟩ := List.getElem?_eq_some_iff.mp hi
    rw [hcalls] at hi hlt ⊢
    rw [List.length_append, List.length_singleton] at hlt ⊢
    by_cases hbefore : i < (handing xs : List (SourceCall ω α)).length
    · rw [List.getElem?_append_left hbefore] at hi
      exact absurd hi (hhanding xs i)
    · omega
  cases h with
  | waiting xs _ _ hcalls => rw [hcalls] at hi; exact absurd hi (hhanding xs i)
  | holding _ xs _ _ hcalls => rw [hcalls] at hi; exact absurd hi (hhanding xs i)
  | parked xs _ _ hcalls => exact hlast hcalls
  | ended xs _ _ hcalls => exact hlast hcalls

/-- From `p` to `q` the source was pulled at most `budget` times. -/
structure Asks (budget : Nat) (p q : Partitioner (Recorded ω σ α) τ α) : Prop where
  size : q.size = p.size
  pulls : pulls q.source.calls ≤ pulls p.source.calls + budget

theorem Asks.mono {m n : Nat} (h : Asks m p q) (hle : m ≤ n) : Asks n p q :=
  ⟨h.size, Nat.le_trans h.pulls (Nat.add_le_add_left hle _)⟩

theorem Asks.trans {m n : Nat} (hpq : Asks m p q) (hqr : Asks n q r) : Asks (m + n) p r where
  size := hqr.size.trans hpq.size
  pulls := by
    have h := hpq.pulls
    have h' := hqr.pulls
    omega

/-! ## Looking ahead -/

/-- What looking ahead says in the state `q` that it leaves: an element is held, or the end was
reported and no element is held. Reporting the end fails with the log. -/
inductive Looked (log : Sink ω τ) (q : Partitioner (Recorded ω σ α) τ α) :
    Except (Fault ω) Bool → Prop
  | ready (a : α) (hend : q.ended = false) (hahead : q.ahead = some (.element a)) :
      Looked log q (.ok true)
  | atEnd (logged : Except (Fault ω) Unit) (hlog : log.NeverFails → logged = .ok ())
      (hend : q.ended = true) (hheld : q.held = []) : Looked log q (logged.map fun _ => false)

theorem hasMore_standing (log : Sink ω τ) (h : Standing src p) :
    ∃ outcome q, hasMore src.recorded log p = (outcome, q) ∧ Standing src q ∧ Looked log q outcome ∧
      Asks 1 p q ∧ q.elements = p.elements := by
  cases h with
  | waiting xs hend hahead hcalls hcount hsrc =>
      rcases hpull : src.pull p.source.state with ⟨answer, s⟩
      have hs : src.NeverFails s := by
        have := hsrc.after 1
        rwa [Source.after, Source.after, hpull] at this
      have hrecord : src.recorded.pull p.source = (answer, ⟨s, handing xs ++ [.pull answer]⟩) := by
        rw [Source.recorded_pull hpull, hcalls]
      rcases hsrc 0 with ⟨a, ha⟩ | hfin
      · obtain rfl : answer = .ok (.element a) := by rw [Source.after, hpull] at ha; exact ha
        rw [hasMore_of_pull hend hahead hrecord]
        refine ⟨_, _, rfl, .holding a (xs ++ [a]) hend rfl ?_ ?_ hs, .ready a hend rfl,
          ⟨rfl, ?_⟩, rfl⟩
        · rw [handing_append]; rfl
        · simp [hcount]
        · simp [hcalls]
      · obtain rfl : answer = .ok .finished := by rw [Source.after, hpull] at hfin; exact hfin
        rw [hasMore_of_pull hend hahead hrecord, inspect, reportEnd_eq]
        refine ⟨_, _, rfl, .ended xs rfl rfl rfl hcount, .atEnd _ (fun h => h _ _) rfl rfl,
          ⟨rfl, ?_⟩, rfl⟩
        simp [hcalls]
  | holding a xs hend hahead hcalls hcount hsrc =>
      rw [hasMore_of_ahead hend hahead]
      refine ⟨_, _, rfl, .holding a xs hend rfl hcalls hcount hsrc, .ready a hend rfl,
        ⟨rfl, Nat.le_succ _⟩, rfl⟩
  | parked xs hend hahead hcalls hcount =>
      rw [hasMore_of_ahead hend hahead, inspect, reportEnd_eq]
      exact ⟨_, _, rfl, .ended xs rfl rfl hcalls hcount, .atEnd _ (fun h => h _ _) rfl rfl,
        ⟨rfl, Nat.le_succ _⟩, rfl⟩
  | ended xs hend hahead hcalls hcount =>
      exact ⟨_, _, hasMore_of_ended hend, .ended xs hend hahead hcalls hcount,
        .atEnd (.ok ()) (fun _ => rfl) hend (by rw [held, hahead]), ⟨rfl, Nat.le_succ _⟩, rfl⟩

/-- Looking ahead once more changes nothing, and says the same. -/
theorem Looked.again (src : Source ω σ α) {log : Sink ω τ} {outcome : Except (Fault ω) Bool}
    (h : Looked log q outcome) :
    ∃ b, hasMore src.recorded log q = (.ok b, q) ∧ (∀ c, outcome = .ok c → c = b) ∧
      (log.NeverFails → outcome = .ok b) := by
  cases h with
  | ready a hend hahead =>
      refine ⟨true, ?_, fun c hc => by simpa using hc.symm, fun _ => rfl⟩
      rw [hasMore_of_ahead hend hahead, inspect, ← hahead]
  | atEnd logged hlog hend =>
      refine ⟨false, hasMore_of_ended hend, fun c hc => ?_, fun h => by rw [hlog h]; rfl⟩
      cases logged with
      | error fault => cases hc
      | ok _ => cases hc; rfl

/-! ## Filling a partition -/

theorem Standing.of_held {a : α} (h : Standing src p) (hheld : p.ahead = some (.element a)) :
    ∃ xs, p.ended = false ∧ p.source.calls = handing xs ∧ xs.length = p.elements + 1 ∧
      src.NeverFails p.source.state := by
  cases h with
  | holding _ xs hend _ hcalls hcount hsrc => exact ⟨xs, hend, hcalls, hcount, hsrc⟩
  | waiting _ _ hahead => rw [hahead] at hheld; cases hheld
  | parked _ _ hahead => rw [hahead] at hheld; cases hheld
  | ended _ _ hahead => rw [hahead] at hheld; cases hheld

theorem fill_standing (log : Sink ω τ) {a : α} (h : Standing src p)
    (hheld : p.ahead = some (.element a)) :
    ∃ outcome q, fill src.recorded log a p = (outcome, q) ∧ Standing src q ∧ q.held = [] ∧
      Asks (p.size.toNat - 1) p q ∧
      (log.NeverFails → ∃ chunk, outcome = .ok (some chunk) ∧
        q.elements = p.elements + chunk.length) := by
  obtain ⟨xs, hend, hcalls, hcount, hsrc⟩ := h.of_held hheld
  have hread := gather_recorded src (p.size.toNat - 1) p.source
  rcases hgather : gather src.recorded (p.size.toNat - 1) p.source with ⟨result, source⟩
  rw [hgather] at hread
  cases hread with
  | full rest hlength =>
      rw [fill_of_gather hgather, emit_eq]
      refine ⟨_, _, rfl, .waiting (xs ++ rest) hend rfl ?_ ?_ (hsrc.after _), rfl,
        ⟨rfl, ?_⟩, fun h => ⟨a :: rest, by rw [h]; rfl, rfl⟩⟩
      · rw [hcalls, handing_append]
      · simp only [List.length_append, List.length_cons]
        omega
      · simp only [pulls_append, pulls_handing]
        omega
  | short rest hlength =>
      rw [fill_of_gather hgather, emit_eq]
      refine ⟨_, _, rfl, .parked (xs ++ rest) hend rfl ?_ ?_, rfl,
        ⟨rfl, ?_⟩, fun h => ⟨a :: rest, by rw [h]; rfl, rfl⟩⟩
      · rw [hcalls, handing_append]
      · simp only [List.length_append, List.length_cons]
        omega
      · simp only [pulls_append, pulls_handing, pulls_pull]
        omega
  | broken rest _ _ hbroken => exact absurd (hsrc rest.length) hbroken

theorem next_standing (log : Sink ω τ) (h : Standing src p) :
    ∃ outcome q, next src.recorded log p = (outcome, q) ∧ Standing src q ∧ q.held = [] ∧
      Asks p.size.toNat p q ∧
      (log.NeverFails → ∃ chunk?, outcome = .ok chunk? ∧
        q.elements = p.elements + chunk?.toList.flatten.length) := by
  obtain ⟨found, q, hmore, hq, hlooked, hasks, helements⟩ := hasMore_standing log h
  cases hlooked with
  | ready a hend hahead =>
      obtain ⟨outcome, r, hfill, hr, hheld, hasks', hcounted⟩ := fill_standing log hq hahead
      rw [next_of_more hmore hahead]
      refine ⟨outcome, r, hfill, hr, hheld, ?_, fun hlog => ?_⟩
      · have hroom : 1 + (q.size.toNat - 1) = p.size.toNat := by
          rw [hasks.size, Nat.add_sub_cancel' p.size.pos]
        exact hroom ▸ hasks.trans hasks'
      · obtain ⟨chunk, houtcome, hr⟩ := hcounted hlog
        exact ⟨some chunk, houtcome, by rw [hr, helements]; simp⟩
  | atEnd logged hlog hend hheld =>
      refine ⟨_, q, next_of_end hmore, hq, hheld, hasks.mono p.size.pos,
        fun h => ⟨none, ?_, helements⟩⟩
      rw [hlog h]
      rfl

/-! ## One call and a run of calls -/

/-- How often an operation may pull. -/
def Operation.demand (size : PartitionSize) : Operation → Nat
  | .hasMore => 1
  | _ => size.toNat

/-- What a call from `p` to `q` asks of the source and counts, and when it leaves an element
held. -/
structure Answered (log : Sink ω τ) (op : Operation) (p q : Partitioner (Recorded ω σ α) τ α)
    (answer : Answer ω α) : Prop where
  asks : Asks (op.demand p.size) p q
  counted : log.NeverFails → q.elements = p.elements + answer.chunk?.toList.flatten.length
  held : q.held ≠ [] → op = .hasMore ∧ answer = .more true

theorem perform_standing (log : Sink ω τ) (op : Operation) (hop : op ≠ .stop) (h : Standing src p) :
    Standing src (perform src.recorded log op p).2 ∧
      Answered log op p (perform src.recorded log op p).2 (perform src.recorded log op p).1 := by
  cases op with
  | hasMore =>
      obtain ⟨outcome, q, hmore, hq, hlooked, hasks, helements⟩ := hasMore_standing log h
      rw [perform, hmore]
      refine ⟨hq, hasks, fun _ => ?_, fun hheld => ⟨rfl, ?_⟩⟩
      · cases outcome <;> exact helements
      · cases hlooked with
        | ready => rfl
        | atEnd _ _ _ hnone => exact absurd hnone hheld
  | next =>
      obtain ⟨outcome, q, hnext, hq, hheld, hasks, hcounted⟩ := next_standing log h
      rw [perform, hnext]
      refine ⟨hq, hasks, fun hlog => ?_, fun hne => absurd hheld hne⟩
      obtain ⟨chunk?, rfl, hcount⟩ := hcounted hlog
      cases chunk? <;> exact hcount
  | nextOrFail =>
      obtain ⟨outcome, q, hnext, hq, hheld, hasks, hcounted⟩ := next_standing log h
      -- without a partition left the call fails, in the state that `next` leaves
      have hstate : (nextOrFail src.recorded log p).2 = q := by
        rw [nextOrFail, hnext]
        rcases outcome with _ | _ | _ <;> rfl
      rw [perform, hstate]
      refine ⟨hq, hasks, fun hlog => ?_, fun hne => absurd hheld hne⟩
      obtain ⟨chunk?, rfl, hcount⟩ := hcounted hlog
      rw [nextOrFail, hnext]
      cases chunk? <;> exact hcount
  | stop => exact absurd rfl hop

/-- The second of two calls of `hasMore` leaves the state of the first one, and says the same. -/
theorem perform_again (log : Sink ω τ) (h : Standing src p) :
    ∃ b, perform src.recorded log .hasMore (perform src.recorded log .hasMore p).2
        = (.more b, (perform src.recorded log .hasMore p).2) ∧
      (∀ c, (perform src.recorded log .hasMore p).1 = .more c → c = b) ∧
      (log.NeverFails → (perform src.recorded log .hasMore p).1 = .more b) := by
  obtain ⟨outcome, q, hmore, -, hlooked, -, -⟩ := hasMore_standing log h
  obtain ⟨b, hagain, hsame, hlog⟩ := hlooked.again src
  have hfirst : perform src.recorded log .hasMore p = (answerOf .more outcome, q) := by
    rw [perform, hmore]
  rw [hfirst, perform, hagain]
  refine ⟨b, rfl, fun c hc => hsame c ?_, fun h => by rw [hlog h]; rfl⟩
  cases outcome with
  | error fault => cases hc
  | ok d => cases hc; rfl

/-- A run leaves the partitioner in good standing, and counts the elements that it hands out. -/
theorem run_standing {s : σ} (hsrc : src.NeverFails s) (log : Sink ω τ) (size : PartitionSize)
    (t : τ) (ops : List Operation) (hops : Operation.stop ∉ ops) :
    Standing src (recordAfter src log ops (start size s t)) ∧
      (recordAfter src log ops (start size s t)).size = size ∧
      (log.NeverFails → (recordAfter src log ops (start size s t)).elements
        = (handedOut (run src log ops (start size s t)).1).flatten.length) := by
  -- from the end of the run, since the invariant is about the state before the last call
  induction ops using List.reverseRecOn with
  | nil => exact ⟨.waiting [] rfl rfl rfl rfl hsrc, rfl, fun _ => rfl⟩
  | append_singleton ops op ih =>
      obtain ⟨hstanding, hsize, hcount⟩ := ih fun h => hops (List.mem_append_left [op] h)
      have hop : op ≠ .stop := fun h => hops (by simp [h])
      obtain ⟨hq, hanswered⟩ := perform_standing log op hop hstanding
      rw [recordAfter_snoc]
      refine ⟨hq, hanswered.asks.size.trans hsize, fun hlog => ?_⟩
      rw [hanswered.counted hlog, hcount hlog, handedOut_recorded_snoc, List.flatten_append,
        List.length_append]

/-! ## Pulling on demand -/

/-- What a run without `stop` asks of a source that does not fail. `after i` is the state after the
first `i` calls, with the record of the source. -/
structure PullsOnDemand (log : Sink ω τ) (size : PartitionSize) (ops : List Operation)
    (answers : List (Answer ω α)) (after : Nat → Partitioner (Recorded ω σ α) τ α) : Prop where
  /-- Nothing is asked or held before the first call. -/
  fresh : (after 0).source.calls = [] ∧ (after 0).held = []
  /-- There is a pull for each element that went into a partition, for one that is held ahead, and
  for the end once it was told. -/
  count : ∀ i, pulls (after i).source.calls
    = (after i).elements + (after i).held.length + (endTold (after i).source.calls).toNat
  /-- The elements that went into partitions were handed out, unless the log failed. -/
  elements : log.NeverFails → ∀ i,
    (after i).elements = (handedOut (answers.take i)).flatten.length
  held : ∀ i < ops.length, (after (i + 1)).held ≠ [] →
    ops[i]? = some .hasMore ∧ answers[i]? = some (.more true)
  hasMore : ∀ i, ops[i]? = some .hasMore →
    pulls (after (i + 1)).source.calls ≤ pulls (after i).source.calls + 1
  next : ∀ i op, ops[i]? = some op → op = .next ∨ op = .nextOrFail →
    pulls (after (i + 1)).source.calls ≤ pulls (after i).source.calls + size.toNat
  /-- Looking ahead directly after looking ahead changes nothing, and says the same. -/
  again : ∀ i, ops[i]? = some .hasMore → ops[i + 1]? = some .hasMore →
    after (i + 2) = after (i + 1) ∧ ∃ b, answers[i + 1]? = some (.more b) ∧
      (∀ c, answers[i]? = some (.more c) → c = b) ∧
      (log.NeverFails → answers[i]? = some (.more b))
  /-- The call that told the end is the last one. -/
  ended : ∀ i j, (after i).source.calls[j]? = some (.pull (.ok .finished)) →
    j + 1 = (after i).source.calls.length

theorem make_eq_start {v : Value ω} {s : σ} {t : τ} {p : Partitioner σ τ α}
    (h : make v (.ok s) (.ok t) = .ok p) : p = start p.size s t := by
  cases hsize : PartitionSize.ofValue v with
  | error fault => simp [make, hsize, bind, Except.bind] at h
  | ok size =>
      have hp : start size s t = p := by
        simpa [make, hsize, bind, Except.bind, pure, Except.pure] using h
      rw [← hp]
      rfl

/-- **A partitioner is made without touching its source, and over a source that does not fail every
run without `stop` pulls on demand.** -/
theorem run_pulls_on_demand :
    (∀ (v : Value ω) (s : σ) (t : τ) (p : Partitioner σ τ α),
      make v (.ok s) (.ok t) = .ok p → p = start p.size s t) ∧
    ∀ (src : Source ω σ α) (s : σ), src.NeverFails s →
      ∀ (log : Sink ω τ) (size : PartitionSize) (t : τ) (ops : List Operation),
        Operation.stop ∉ ops →
        PullsOnDemand log size ops (run src log ops (start size s t)).1
          fun i => recordAfter src log (ops.take i) (start size s t) := by
  refine ⟨fun v s t p => make_eq_start, fun src s hsrc log size t ops hops => ?_⟩
  have hrun (i : Nat) := run_standing hsrc log size t (ops.take i)
    fun h => hops (List.mem_of_mem_take h)
  -- the state after the call at `i`, and what that call asks and answers
  have hcall {i : Nat} {op : Operation} (hi : ops[i]? = some op) :
      ∃ answer, (run src log ops (start size s t)).1[i]? = some answer ∧
        Answered log op (recordAfter src log (ops.take i) (start size s t))
          (recordAfter src log (ops.take (i + 1)) (start size s t)) answer := by
    have hop : op ≠ .stop := fun h => hops (h ▸ List.mem_of_getElem? hi)
    refine ⟨_, answer_recorded src log hi _, ?_⟩
    rw [recordAfter_take_succ src log hi]
    exact (perform_standing log op hop (hrun i).1).2
  refine ⟨⟨rfl, rfl⟩, fun i => (hrun i).1.pulls_eq, fun hlog i => ?_, fun i hlt hheld => ?_,
    fun i hi => ?_, fun i op hi hop => ?_, fun i hi hi' => ?_, fun i j => (hrun i).1.end_last⟩
  · rw [(hrun i).2.2 hlog, take_run]
  · have hi : ops[i]? = some ops[i] := List.getElem?_eq_getElem hlt
    obtain ⟨answer, hanswer, hanswered⟩ := hcall hi
    obtain ⟨hop, hmore⟩ := hanswered.held hheld
    exact ⟨hi.trans (congrArg some hop), hanswer.trans (congrArg some hmore)⟩
  · obtain ⟨_, _, hanswered⟩ := hcall hi
    exact hanswered.asks.pulls
  · obtain ⟨_, _, hanswered⟩ := hcall hi
    have hpulls := hanswered.asks.pulls
    rw [(hrun i).2.1] at hpulls
    rcases hop with rfl | rfl <;> exact hpulls
  · obtain ⟨b, hagain, hsame, hlog⟩ := perform_again log (hrun i).1
    rw [recordAfter_take_succ src log hi', answer_recorded src log hi', answer_recorded src log hi,
      recordAfter_take_succ src log hi, hagain]
    exact ⟨rfl, b, rfl, fun c hc => hsame c (Option.some.inj hc), fun h => congrArg some (hlog h)⟩

/-- A script of two elements whose end is followed by more, under partitions of two. The third pull
tells the end, and the three calls after it pull nothing. -/
theorem run_pulls_on_demand_up_to_the_end :
    let feed : Feed Item := .fresh (.script ⟨Script.handing [(.bool false, .bigint 1),
      (.undefined, .bigint 2), (.bool true, .bigint 3)], .reply (.result (.bool false) (.bigint 4)),
      .none⟩)
    let size : PartitionSize := ⟨2, by decide⟩
    let p : Partitioner (Feed Item) Unit (Value Item) := start size feed ()
    let ops := [.hasMore, .hasMore, .next, .hasMore, .hasMore, .next, .nextOrFail]
    let after i := recordAfter Feed.source Sink.discard (ops.take i) p
    make (.number 2 : Value Item) (.ok feed) (.ok ()) = .ok p ∧ p = start p.size feed () ∧
      Feed.source.NeverFails feed ∧ Operation.stop ∉ ops ∧
      PullsOnDemand Sink.discard size ops (run Feed.source Sink.discard ops p).1 after ∧
      [0, 1, 2, 3, 4, 5, 6, 7].map (fun i => pulls (after i).source.calls)
        = [0, 1, 1, 2, 3, 3, 3, 3] := by
  intro feed size p ops after
  have hmake : make (.number 2 : Value Item) (.ok feed) (.ok ()) = .ok p := rfl
  have hfeed : Feed.source.NeverFails feed :=
    Feed.neverFails_script _ (.bool false, .bigint 4) .none 0 0
  have hops : Operation.stop ∉ ops := by decide
  exact ⟨hmake, run_pulls_on_demand.1 (.number 2) feed () p hmake, hfeed, hops,
    run_pulls_on_demand.2 Feed.source feed hfeed Sink.discard size () ops hops, rfl⟩

end Partitioner

end Arrange
