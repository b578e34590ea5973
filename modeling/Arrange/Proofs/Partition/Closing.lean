import Arrange.Catalog
import Arrange.Partition.Visit
import Arrange.Proofs.Partition.Step
import Arrange.Proofs.Partition.Yield
import Mathlib.Data.List.Induction

/-!
# Closing a source that has told its end

A source that has told its end is not pulled again. It is closed nevertheless when `stop` comes
directly after the call that met the end while it filled a partition, for then the end is known to
the partitioner but not reported yet; and only then. The invariant is `Noted`. Main statement:
`run_closes_finished_source_after_short_partition`.
-/

set_option autoImplicit false

namespace Arrange.Partitioner

open SourceCall

variable {ω σ τ α : Type}

/-! ## The end in the state -/

/-- What the state says of the calls to the source. While the end is not reported, the source has
told it exactly when it is kept ahead, and was not closed. After that nothing is kept ahead, and the
source was closed at most once. -/
structure Noted (p : Partitioner (Recorded ω σ α) τ α) : Prop where
  told : p.ended = false → (endTold p.source.calls = true ↔ p.ahead = some .finished)
  empty : p.ended = true → p.ahead = none
  closings_le : closings p.source.calls ≤ p.ended.toNat

section Step

variable {log : Sink ω τ} {op : Operation} {answer : Answer ω α}
  {p q : Partitioner (Recorded ω σ α) τ α} {asked : List (SourceCall ω α)}

theorem Noted.not_told (hp : Noted p) (hend : p.ended = false) (hopen : p.ahead ≠ some .finished) :
    endTold p.source.calls = false := by
  have hiff := hp.told hend
  cases htold : endTold p.source.calls with
  | false => rfl
  | true => exact absurd (hiff.mp htold) hopen

theorem Noted.not_ended (hp : Noted p) (hahead : p.ahead = some .finished) : p.ended = false := by
  cases hend : p.ended with
  | false => rfl
  | true =>
      have hnone := hp.empty hend
      rw [hahead] at hnone
      cases hnone

theorem Noted.unclosed (hp : Noted p) (hend : p.ended = false) : closings p.source.calls = 0 := by
  have hle := hp.closings_le
  rw [hend, Bool.toNat_false] at hle
  exact Nat.le_zero.mp hle

theorem noted_start (src : Source ω σ α) (log : Sink ω τ) (ops : List Operation)
    (size : PartitionSize) (s : σ) (t : τ) :
    Noted ((history src log ops (start size s t)).after 0) where
  told := fun _ => by simp [history, recordAfter, run, start, mapSource, Recorded.fresh, endTold]
  empty := fun _ => rfl
  closings_le := Nat.zero_le _

/-- What is asked before the end is no closing, and it tells the end when that is kept ahead. -/
theorem Noted.goesOn (hp : Noted p) (hend : p.ended = false) (hopen : p.ahead ≠ some .finished)
    (hcalls : q.source.calls = p.source.calls ++ asked) (hsame : q.ended = p.ended)
    (htold : endTold asked = true ↔ q.ahead = some .finished) (hclosings : closings asked = 0) :
    Noted q where
  told := by
    intro _
    rw [hcalls, endTold_append, hp.not_told hend hopen, Bool.false_or]
    exact htold
  empty := by
    intro hqend
    rw [hsame, hend] at hqend
    cases hqend
  closings_le := by
    rw [hcalls, closings_append, hclosings, hsame]
    exact hp.closings_le

/-- The call that takes the partitioner to its end closes the source at most once. -/
theorem Noted.comesToEnd (hp : Noted p) (hend : p.ended = false)
    (hcalls : q.source.calls = p.source.calls ++ asked) (hqend : q.ended = true)
    (hahead : q.ahead = none) (hclosings : closings asked ≤ 1) : Noted q where
  told := by
    intro hnot
    rw [hqend] at hnot
    cases hnot
  empty := by
    intro _
    exact hahead
  closings_le := by
    have hle := hp.closings_le
    rw [hend, Bool.toNat_false] at hle
    rw [hcalls, closings_append, hqend, Bool.toNat_true]
    omega

theorem Step.noted (hp : Noted p) (h : Step log p op asked answer q) : Noted q := by
  cases h with
  | settled => exact hp
  | looked a xs r hend hopen _ hcalls =>
      exact hp.goesOn hend hopen hcalls rfl (by simp) (closings_handing xs)
  | reported _ told r _ hend _ hcalls =>
      exact hp.comesToEnd hend hcalls rfl rfl (by simp)
  | filled _ xs chunk r _ hend hopen _ _ _ hcalls =>
      refine hp.goesOn hend hopen hcalls rfl ?_ (by simp)
      by_cases hshort : chunk.length < p.size.toNat <;> simp [hshort]
  | broken _ _ asked r ahead _ hend hopen hasked hcalls hahead =>
      refine hp.goesOn hend hopen hcalls rfl ?_ hasked.closings_eq
      rw [hasked.endTold_eq]
      rcases hahead with rfl | rfl <;> simp
  | closed outcome r hend hcalls =>
      exact hp.comesToEnd hend hcalls rfl rfl (Nat.le_of_eq (closings_close outcome))

/-- A partitioner that was not stopped is at its end only when the source has told it. -/
theorem Step.told_of_ended (hop : op ≠ .stop) (hnoted : Noted p)
    (hp : p.ended = true → endTold p.source.calls = true) (h : Step log p op asked answer q)
    (hq : q.ended = true) : endTold q.source.calls = true := by
  have hnot (hend : p.ended = false) (hstill : p.ended = true) : False :=
    Bool.false_ne_true (hend.symm.trans hstill)
  cases h with
  | settled => exact hp hq
  | looked _ _ _ hend => exact (hnot hend hq).elim
  | reported _ told r _ hend hahead hcalls =>
      show endTold r.calls = true
      rw [hcalls, endTold_append, endTold_ending]
      cases told with
      | true => exact Bool.or_true _
      | false =>
          -- the end was told before, while a partition was filled
          rw [(hnoted.told hend).mpr hahead]
          rfl
  | filled _ _ _ _ _ hend => exact (hnot hend hq).elim
  | broken _ _ _ _ _ _ hend => exact (hnot hend hq).elim
  | closed => exact absurd rfl hop

/-- A source that has told its end is not pulled. -/
theorem Step.pull_not_mem (hp : Noted p) (h : Step log p op asked answer q)
    (htold : endTold p.source.calls = true) (outcome : Except (Fault ω) (Pulled α)) :
    .pull outcome ∉ asked := by
  have hclosed (hend : p.ended = false) (hopen : p.ahead ≠ some .finished) : False := by
    rw [hp.not_told hend hopen] at htold
    exact Bool.false_ne_true htold
  cases h with
  | settled => exact List.not_mem_nil
  | looked _ _ _ hend hopen => exact (hclosed hend hopen).elim
  | reported _ told _ _ hend hahead =>
      have hkept : p.ahead = some .finished := (hp.told hend).mp htold
      cases told with
      | false => exact List.not_mem_nil
      | true =>
          rw [hkept] at hahead
          cases hahead
  | filled _ _ _ _ _ hend hopen => exact (hclosed hend hopen).elim
  | broken _ _ _ _ _ _ hend hopen => exact (hclosed hend hopen).elim
  | closed => simp

/-- Only `stop` closes the source, and only before the partitioner is at its end. -/
theorem Step.close_mem_iff (h : Step log p op asked answer q) :
    (∃ outcome, .close outcome ∈ asked) ↔ op = .stop ∧ p.ended = false := by
  cases h with
  | settled _ hend => simp [hend]
  | looked => simp [handing]
  | reported _ told _ hop => cases told <;> simp [ending, hop]
  | filled _ _ chunk _ hop =>
      have hne : op ≠ .stop := by rcases hop with rfl | rfl <;> decide
      by_cases hshort : chunk.length < p.size.toNat <;> simp [handing, ending, hshort, hne]
  | broken _ _ _ _ _ hop _ _ hbreaks => simp [hbreaks.close_not_mem, hop]
  | closed _ _ hend => simp [hend]

/-- The end is kept ahead by a call that has an element to hand out when it is told the end. -/
theorem Step.parked_iff (hp : Noted p) (h : Step log p op asked answer q) :
    q.ahead = some .finished ↔ (op = .next ∨ op = .nextOrFail) ∧
      ∃ read, asked = handing read ++ [.pull (.ok .finished)] ∧ p.held ++ read ≠ [] := by
  -- a call that is not told the end is none of those
  have hnot (htold : endTold asked = false) (read : List α) :
      asked ≠ handing read ++ [.pull (.ok .finished)] := by
    rintro rfl
    rw [endTold_append, endTold_finished, Bool.or_true] at htold
    exact Bool.false_ne_true htold.symm
  cases h with
  | settled _ hend => simp [hp.empty hend]
  | looked => simp
  | reported _ told _ _ _ hahead =>
      refine iff_of_false (by simp) ?_
      rintro ⟨-, read, hread, hne⟩
      cases told with
      | false => exact hnot rfl read hread
      | true =>
          -- nothing was held, and the end was all that was read
          have hheld : p.held = [] := by simp [held, hahead]
          have hnil : read = [] := by simpa [ending, handing] using hread
          exact hne (by rw [hheld, hnil, List.nil_append])
  | filled _ xs chunk _ hop _ _ hchunk hne =>
      by_cases hshort : chunk.length < p.size.toNat
      · refine iff_of_true (if_pos hshort) ⟨hop, xs, ?_, ?_⟩
        · rw [decide_eq_true hshort, ending, if_pos rfl]
        · rw [hchunk]
          exact hne
      · refine iff_of_false (by simp [hshort]) ?_
        rintro ⟨-, read, hread, -⟩
        exact hnot (by simp [hshort]) read hread
  | broken _ _ _ _ ahead _ _ _ hbreaks _ hahead =>
      refine iff_of_false (by rcases hahead with rfl | rfl <;> simp) ?_
      rintro ⟨-, read, hread, -⟩
      exact hnot hbreaks.endTold_eq read hread
  | closed => simp

/-- Unless the log fails, the end is kept ahead by a call that hands out less than a full
partition. -/
theorem Step.parked_iff_short (hlog : log.NeverFails) (hp : Noted p)
    (h : Step log p op asked answer q) : q.ahead = some .finished ↔
      ∃ chunk, answer = .partition chunk ∧ chunk.length < p.size.toNat := by
  cases h with
  | settled _ hend => cases op <;> simp [hp.empty hend, Operation.endAnswer]
  | looked => simp
  | reported =>
      rw [hlog]
      cases op <;> simp [answerOf, Operation.endAnswer]
  | filled =>
      rw [hlog]
      simp [answerOf]
  | broken _ _ _ _ _ _ _ _ _ _ hahead => rcases hahead with rfl | rfl <;> simp
  | closed outcome => cases outcome <;> simp [answerOf]

theorem Step.size_eq (h : Step log p op asked answer q) : q.size = p.size := by
  cases h <;> rfl

end Step

/-! ## The calls of a history -/

namespace History

/-- The call at `j` is told the end while it fills a partition: what was held ahead and what it has
read makes a partition, although not a full one. -/
def FillsShort (h : History ω σ τ α) (j : Nat) : Prop :=
  (h.ops[j]? = some .next ∨ h.ops[j]? = some .nextOrFail) ∧
    ∃ read, h.asked j = handing read ++ [.pull (.ok .finished)] ∧ (h.after j).held ++ read ≠ []

section

variable {h : History ω σ τ α} {log : Sink ω τ}

theorem Runs.noted (hruns : h.Runs log) (hstart : Noted (h.after 0)) (i : Nat) :
    Noted (h.after i) := by
  have hinv := hruns.invariant (P := fun _ p => Noted p) hstart
    (fun _ _ _ _ _ _ hp hstep => hstep.noted hp) i
  exact hinv

/-- The source is closed at most once. -/
theorem Runs.closings_le (hruns : h.Runs log) (hstart : Noted (h.after 0)) (i : Nat) :
    closings (h.after i).source.calls ≤ 1 := by
  have hnoted := hruns.noted hstart i
  exact Nat.le_trans hnoted.closings_le (Bool.toNat_le _)

theorem Runs.size_eq (hruns : h.Runs log) (i : Nat) : (h.after i).size = (h.after 0).size :=
  hruns.invariant (P := fun _ p => p.size = (h.after 0).size) rfl
    (fun _ _ _ _ _ _ hp hstep => hstep.size_eq.trans hp) i

/-- The end is kept ahead directly after a call that fills a short partition. -/
theorem Runs.parked_iff (hruns : h.Runs log) (hstart : Noted (h.after 0)) {j : Nat}
    {op : Operation} (hop : h.ops[j]? = some op) :
    (h.after (j + 1)).ahead = some .finished ↔ h.FillsShort j := by
  obtain ⟨answer, -, hstep⟩ := hruns.step j op hop
  rw [hstep.parked_iff (hruns.noted hstart j), FillsShort, hop, Option.some.injEq,
    Option.some.injEq]

/-- Unless the log fails, the consumer is handed that partition. -/
theorem Runs.fillsShort_iff (hruns : h.Runs log) (hstart : Noted (h.after 0))
    (hlog : log.NeverFails) (j : Nat) : h.FillsShort j ↔
      ∃ chunk, h.answers[j]? = some (.partition chunk) ∧
        chunk.length < (h.after 0).size.toNat := by
  cases hop : h.ops[j]? with
  | none =>
      have hnone := (hruns.idle j hop).1
      simp [FillsShort, hop, hnone]
  | some op =>
      obtain ⟨answer, hanswer, hstep⟩ := hruns.step j op hop
      rw [← hruns.parked_iff hstart hop, hstep.parked_iff_short hlog (hruns.noted hstart j),
        hruns.size_eq, hanswer]
      simp only [Option.some.injEq]

/-- A source that has told its end is closed only by a call of `stop` that finds the end kept
ahead. -/
theorem Runs.closed_iff (hruns : h.Runs log) (hstart : Noted (h.after 0))
    (hahead : (h.after 0).ahead = none) (i : Nat) :
    (endTold (h.after i).source.calls = true ∧ ∃ outcome, .close outcome ∈ h.asked i) ↔
      h.ops[i]? = some .stop ∧ ∃ j, i = j + 1 ∧ h.FillsShort j := by
  constructor
  · rintro ⟨htold, outcome, hmem⟩
    have hasked : h.asked i ≠ [] := List.ne_nil_of_mem hmem
    obtain ⟨op, answer, hop, -, hstep⟩ := hruns.exists_step hasked
    obtain ⟨rfl, hend⟩ := hstep.close_mem_iff.mp ⟨outcome, hmem⟩
    have hkept : (h.after i).ahead = some .finished :=
      ((hruns.noted hstart i).told hend).mp htold
    refine ⟨hop, ?_⟩
    cases i with
    | zero =>
        rw [hahead] at hkept
        cases hkept
    | succ j =>
        obtain ⟨hlt, -⟩ := List.getElem?_eq_some_iff.mp hop
        have hbefore : h.ops[j]? = some h.ops[j] :=
          List.getElem?_eq_getElem (Nat.lt_of_succ_lt hlt)
        exact ⟨j, rfl, (hruns.parked_iff hstart hbefore).mp hkept⟩
  · rintro ⟨hop, j, rfl, hfills⟩
    obtain ⟨op, hbefore⟩ : ∃ op, h.ops[j]? = some op := by
      rcases hfills.1 with hop | hop
      · exact ⟨_, hop⟩
      · exact ⟨_, hop⟩
    have hkept := (hruns.parked_iff hstart hbefore).mpr hfills
    have hnoted := hruns.noted hstart (j + 1)
    have hend := hnoted.not_ended hkept
    obtain ⟨answer, -, hstep⟩ := hruns.step (j + 1) .stop hop
    exact ⟨(hnoted.told hend).mpr hkept, hstep.close_mem_iff.mpr ⟨rfl, hend⟩⟩

end

end History

/-! ## The state after a run -/

theorem noted_recordAfter (src : Source ω σ α) (log : Sink ω τ) (ops : List Operation)
    (size : PartitionSize) (s : σ) (t : τ) : Noted (recordAfter src log ops (start size s t)) := by
  have h := (history_runs src log ops (start size s t)).noted
    (noted_start src log ops size s t) ops.length
  have hall : (history src log ops (start size s t)).after ops.length
      = recordAfter src log ops (start size s t) := by
    show recordAfter src log (ops.take ops.length) _ = _
    rw [List.take_length]
  rwa [hall] at h

theorem told_of_ended (src : Source ω σ α) (log : Sink ω τ) (size : PartitionSize) (s : σ) (t : τ)
    (ops : List Operation) (hops : Operation.stop ∉ ops)
    (hend : (recordAfter src log ops (start size s t)).ended = true) :
    endTold (recordAfter src log ops (start size s t)).source.calls = true := by
  induction ops using List.reverseRecOn with
  | nil => cases hend
  | append_singleton ops op ih =>
      have hop : op ≠ .stop := fun h => hops (by simp [h])
      obtain ⟨asked, hstep⟩ := perform_step src log op (recordAfter src log ops (start size s t))
      rw [recordAfter_snoc] at hend ⊢
      exact hstep.told_of_ended hop (noted_recordAfter src log ops size s t)
        (ih fun h => hops (List.mem_append_left [op] h)) hend

/-! ## Consumers that break off -/

/-- The partitions that were taken are those that as many calls of `next` hand out. -/
theorem collect_eq_run (src : Source ω σ α) (log : Sink ω τ) (limit : Nat)
    (p : Partitioner σ τ α) :
    ∃ k, (collect src log limit p).1 = handedOut (run src log (.replicate k .next) p).1 ∧
      (collect src log limit p).2.2 = (run src log (.replicate k .next) p).2 := by
  induction limit generalizing p with
  | zero => exact ⟨0, rfl, rfl⟩
  | succ limit ih =>
      rcases hnext : next src log p with ⟨fault | _ | chunk, q⟩
      · exact ⟨1, by simp [collect, run, perform, hnext, answerOf, handedOut, Answer.chunk?],
          by simp [collect, run, perform, hnext]⟩
      · exact ⟨1, by simp [collect, run, perform, hnext, answerOf, nextAnswer, handedOut,
          Answer.chunk?], by simp [collect, run, perform, hnext]⟩
      · obtain ⟨k, hchunks, hstate⟩ := ih q
        refine ⟨k + 1, ?_, ?_⟩
        · simp [collect, run, perform, hnext, hchunks, List.replicate_succ, answerOf, nextAnswer,
            handedOut, Answer.chunk?]
        · simp [collect, run, perform, hnext, hstate, List.replicate_succ]

/-- A consumer that only calls `next` and `stop` is handed `chunks`, and comes from `p` to `q`. -/
def GoesThrough (src : Source ω σ α) (log : Sink ω τ) (p : Partitioner σ τ α)
    (chunks : List (List α)) (q : Partitioner σ τ α) : Prop :=
  ∃ ops, (∀ op ∈ ops, op = .next ∨ op = .stop) ∧
    handedOut (run src log ops p).1 = chunks ∧ (run src log ops p).2 = q

section Visits

variable (src : Source ω σ α) (log : Sink ω τ) (p : Partitioner σ τ α)

theorem collect_goesThrough (limit : Nat) :
    GoesThrough src log p (collect src log limit p).1 (collect src log limit p).2.2 := by
  obtain ⟨k, hchunks, hstate⟩ := collect_eq_run src log limit p
  refine ⟨.replicate k .next, ?_, hchunks.symm, hstate.symm⟩
  intro op hop
  exact .inl (List.eq_of_mem_replicate hop)

variable {src log p}

theorem GoesThrough.stop {chunks : List (List α)} {q : Partitioner σ τ α}
    (h : GoesThrough src log p chunks q) :
    GoesThrough src log p chunks (Partitioner.stop src q).2 := by
  obtain ⟨ops, hops, hchunks, hq⟩ := h
  have hnone : (perform src log .stop q).1.chunk? = none := by
    rw [perform]
    rcases Partitioner.stop src q with ⟨_ | _, _⟩ <;> rfl
  refine ⟨ops ++ [.stop], ?_, ?_, ?_⟩
  · intro op hop
    rcases List.mem_append.mp hop with hop | hop
    · exact hops op hop
    · exact .inr (List.mem_singleton.mp hop)
  · rw [handedOut_run_snoc, hchunks, hq, hnone, Option.toList_none, List.append_nil]
  · rw [run_snoc, hq]
    rfl

variable (src log p)

/-- A consumer that breaks off or fails when it has seen enough calls `next`, and then `stop`. -/
theorem visit_goesThrough (limit : Nat) :
    GoesThrough src log p (visit src log limit p).1.chunks (visit src log limit p).2 := by
  have hnext := collect_goesThrough src log p limit
  rw [visit]
  rcases hcollect : collect src log limit p with ⟨chunks, ending, q⟩
  rw [hcollect] at hnext
  cases ending with
  | exhausted => exact hnext
  | failed => exact hnext
  | limit =>
      have hstopped := hnext.stop
      rcases hstop : Partitioner.stop src q with ⟨_ | _, r⟩
      all_goals
        rw [hstop] at hstopped
        simp only [hstop]
        exact hstopped

theorem visitFailing_goesThrough (limit : Nat) (fault : Fault ω) :
    GoesThrough src log p (visitFailing src log limit fault p).1.chunks
      (visitFailing src log limit fault p).2 := by
  have hnext := collect_goesThrough src log p limit
  rw [visitFailing]
  rcases hcollect : collect src log limit p with ⟨chunks, ending, q⟩
  rw [hcollect] at hnext
  cases ending with
  | exhausted => exact hnext
  | failed => exact hnext
  | limit => exact hnext.stop

end Visits

/-! ## When a source that has told its end is closed -/

/-- What a run does with a source that has told its end, in partitions of `size`. -/
structure ClosesFinishedAfterShort (log : Sink ω τ) (size : PartitionSize)
    (h : History ω σ τ α) : Prop where
  /-- The source is not pulled again, and it is closed at most once: -/
  pulled : ∀ i, endTold (h.after i).source.calls = true → ∀ outcome, .pull outcome ∉ h.asked i
  closings_le : ∀ i, closings (h.after i).source.calls ≤ 1
  /-- by `stop` alone, and only directly after a call that was told the end while it filled a
  partition. -/
  closed_iff : ∀ i,
    (endTold (h.after i).source.calls = true ∧ ∃ outcome, .close outcome ∈ h.asked i) ↔
      h.ops[i]? = some .stop ∧ ∃ j, i = j + 1 ∧ h.FillsShort j
  /-- Unless the log fails, that call hands out less than a full partition. -/
  fillsShort_iff : log.NeverFails → ∀ j, h.FillsShort j ↔
    ∃ chunk, h.answers[j]? = some (.partition chunk) ∧ chunk.length < size.toNat

/-- **A source that has told its end is closed when `stop` comes directly after a short partition,
and at no other time.** The calls of consumers that break off are calls of `next` and `stop`. -/
theorem run_closes_finished_source_after_short_partition (src : Source ω σ α) (log : Sink ω τ) :
    (∀ (size : PartitionSize) (s : σ) (t : τ) (ops : List Operation),
      ClosesFinishedAfterShort log size (history src log ops (start size s t))) ∧
    ∀ (limit : Nat) (fault : Fault ω) (p : Partitioner σ τ α),
      GoesThrough src log p (visit src log limit p).1.chunks (visit src log limit p).2 ∧
      GoesThrough src log p (visitFailing src log limit fault p).1.chunks
        (visitFailing src log limit fault p).2 := by
  constructor
  · intro size s t ops
    have hruns := history_runs src log ops (start size s t)
    have hstart := noted_start src log ops size s t
    constructor
    · intro i htold outcome hmem
      obtain ⟨op, answer, -, -, hstep⟩ := hruns.exists_step (List.ne_nil_of_mem hmem)
      exact hstep.pull_not_mem (hruns.noted hstart i) htold outcome hmem
    · intro i
      exact hruns.closings_le hstart i
    · intro i
      exact hruns.closed_iff hstart rfl i
    · intro hlog j
      exact hruns.fillsShort_iff hstart hlog j
  · intro limit fault p
    exact ⟨visit_goesThrough src log p limit, visitFailing_goesThrough src log p limit fault⟩

/-- A script of one element under partitions of two. The call that hands it out is told the end, and
the source is closed after that, also by a consumer that breaks off there. -/
theorem run_closes_a_finished_source :
    let size : PartitionSize := ⟨2, by decide⟩
    let feed : Feed Item := .fresh (.script ⟨[.reply (.result (.bool false) (.bigint 1))],
      .reply .ended, .succeeds⟩)
    let p : Partitioner (Feed Item) Unit (Value Item) := start size feed ()
    let h := history Feed.source Sink.discard [.next, .stop] p
    endTold (h.after 1).source.calls = true ∧ (h.after 1).source.state.closings = 0 ∧
      h.asked 1 = [.close (.ok ())] ∧ (h.after 2).source.state.closings = 1 ∧
      (visit Feed.source Sink.discard 1 p).2.source.closings = 1 :=
  ⟨rfl, rfl, rfl, rfl, rfl⟩

end Arrange.Partitioner
