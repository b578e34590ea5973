import Arrange.Catalog
import Arrange.Proofs.Partition.Closing
import Arrange.Proofs.Partition.Yield
import Arrange.Report

/-!
# After the end

A partitioner comes to its end when `stop` is called, also if the source then fails to close, or
when a call reports the end. From then on every call says so, makes no use of the source or the log,
and changes nothing. So the source is closed at most once, and an element that is held ahead when
`stop` is called is never handed out. Main statement: `run_ends_for_good`.
-/

set_option autoImplicit false

namespace Arrange

variable {ω σ τ α : Type}

namespace Partitioner

open SourceCall

/-! ## Reports of the end -/

/-- Whether a call that asked this of the source reports the end with its answer. A fault that the
source itself raised reports nothing, whatever it says. -/
def ReportsEnd (asked : List (SourceCall ω α)) : Operation → Answer ω α → Prop
  | .hasMore, .more available => available = false
  | .next, .exhausted => True
  | .nextOrFail, .failed (.noPartitionsRemain partitions) =>
      .pull (.error (.noPartitionsRemain partitions)) ∉ asked
  | _, _ => False

section Step

variable {log : Sink ω τ} {op : Operation} {answer : Answer ω α}
  {p q : Partitioner (Recorded ω σ α) τ α} {asked : List (SourceCall ω α)}

theorem reportsEnd_endAnswer (partitions : Nat) (hop : op ≠ .stop)
    (hasked : ∀ fault : Fault ω, .pull (.error fault) ∉ asked) :
    ReportsEnd asked op (op.endAnswer partitions) := by
  cases op with
  | hasMore => rfl
  | next => trivial
  | nextOrFail => exact hasked _
  | stop => exact absurd rfl hop

/-- A call that fails because of the source reports no end. -/
theorem not_reportsEnd_of_breaksOff {fault : Fault ω} (h : BreaksOff fault asked) :
    ¬ ReportsEnd asked op (.failed fault) := by
  intro hreports
  rcases h.fault_cases with rfl | hmem
  · cases op <;> exact hreports
  · cases op with
    | nextOrFail =>
        cases fault with
        | noPartitionsRemain => exact hreports hmem
        | _ => exact hreports
    | _ => exact hreports

/-- Unless the log fails, a call takes the partitioner to its end exactly when it is `stop` or
reports the end. -/
theorem Step.ended_iff (hlog : log.NeverFails) (h : Step log p op asked answer q) :
    q.ended = true ↔ p.ended = true ∨ op = .stop ∨ ReportsEnd asked op answer := by
  cases h with
  | settled _ hend => simp [hend]
  | looked _ _ _ hend => simp [hend, ReportsEnd]
  | reported _ told _ hop =>
      have hasked (fault : Fault ω) :
          .pull (.error fault) ∉ (ending told : List (SourceCall ω α)) := by
        cases told <;> simp [ending]
      rw [hlog]
      exact iff_of_true rfl (.inr (.inr (reportsEnd_endAnswer _ hop hasked)))
  | filled _ xs chunk _ hop hend =>
      rw [hlog]
      rcases hop with rfl | rfl <;> simp [hend, answerOf, ReportsEnd]
  | broken _ _ _ _ _ hop hend _ hbreaks => simp [hend, hop, not_reportsEnd_of_breaksOff hbreaks]
  | closed => simp

/-! ## Calls at the end -/

/-- At its end a partitioner uses neither the source nor the log, and stays as it is. -/
theorem perform_of_ended {p : Partitioner σ τ α} (src : Source ω σ α) (log : Sink ω τ)
    (op : Operation) (hend : p.ended = true) :
    perform src log op p = (op.endAnswer p.partitions, p) := by
  have hmore : hasMore src log p = (.ok false, p) := hasMore_of_ended hend
  have hnext : next src log p = (.ok none, p) := by simp [next, hmore]
  cases op with
  | hasMore => rw [perform, hmore]; rfl
  | next => rw [perform, hnext]; rfl
  | nextOrFail => rw [perform, nextOrFail, hnext]; rfl
  | stop => simp [perform, stop, hend, answerOf, Operation.endAnswer]

/-- At its end a partitioner stays as it is through a run. -/
theorem run_of_ended (src : Source ω σ α) (log : Sink ω τ) (ops : List Operation)
    {p : Partitioner σ τ α} (hend : p.ended = true) : (run src log ops p).2 = p := by
  induction ops with
  | nil => rfl
  | cons op ops ih =>
      rw [run, perform_of_ended src log op hend]
      exact ih

theorem Step.of_ended (h : Step log p op asked answer q) (hp : p.ended = true) :
    asked = [] ∧ answer = op.endAnswer p.partitions ∧ q = p := by
  have hnot (hend : p.ended = false) : False := Bool.false_ne_true (hend.symm.trans hp)
  cases h with
  | settled => exact ⟨rfl, rfl, rfl⟩
  | looked _ _ _ hend => exact (hnot hend).elim
  | reported _ _ _ _ hend => exact (hnot hend).elim
  | filled _ _ _ _ _ hend => exact (hnot hend).elim
  | broken _ _ _ _ _ _ hend => exact (hnot hend).elim
  | closed _ _ hend => exact (hnot hend).elim

/-! ## What is handed out -/

theorem chunk?_endAnswer (op : Operation) (partitions : Nat) :
    (op.endAnswer partitions : Answer ω α).chunk? = none := by
  cases op <;> rfl

theorem chunk?_answerOf {β : Type} {told : β → Answer ω α} (htold : ∀ b, (told b).chunk? = none)
    (outcome : Except (Fault ω) β) : (answerOf told outcome).chunk? = none := by
  cases outcome with
  | error => rfl
  | ok b => exact htold b

theorem Step.chunk?_of_stop (h : Step log p .stop asked answer q) : answer.chunk? = none := by
  cases h with
  | settled => rfl
  | reported _ _ _ hop => exact absurd rfl hop
  | filled _ _ _ _ hop => rcases hop with h | h <;> cases h
  | broken => rfl
  | closed => exact chunk?_answerOf (fun _ => rfl) _

/-- The partitions handed out keep, in order, elements that the source produced before the one held
ahead. -/
def HandsOutProduced (chunks : List (List α)) (p : Partitioner (Recorded ω σ α) τ α) : Prop :=
  ∃ before, produced p.source.calls = before ++ p.held ∧ chunks.flatten.Sublist before

theorem Step.handsOutProduced {chunks : List (List α)} (hp : HandsOutProduced chunks p)
    (h : Step log p op asked answer q) :
    HandsOutProduced (chunks ++ answer.chunk?.toList) q := by
  obtain ⟨before, hproduced, hsub⟩ := hp
  -- a call without a partition may leave what was held among the elements before
  have hnone (hnone : answer.chunk? = none) (more : List α)
      (hq : produced q.source.calls = before ++ more ++ q.held) :
      HandsOutProduced (chunks ++ answer.chunk?.toList) q := by
    rw [hnone, Option.toList_none, List.append_nil]
    exact ⟨before ++ more, hq, hsub.trans (List.sublist_append_left _ _)⟩
  cases h with
  | settled => exact hnone (chunk?_endAnswer _ _) [] (by simpa using hproduced)
  | looked a xs r _ _ hheld hcalls =>
      refine hnone rfl [] ?_
      show produced r.calls = before ++ [] ++ [a]
      rw [hcalls, produced_append, hproduced, produced_handing, List.append_assoc, hheld,
        List.append_nil]
  | reported _ told r _ _ _ hcalls =>
      refine hnone (chunk?_answerOf (fun _ => chunk?_endAnswer _ _) _) p.held ?_
      show produced r.calls = before ++ p.held ++ []
      rw [hcalls, produced_append, hproduced, produced_ending]
  | filled _ xs chunk r _ _ _ hchunk _ _ hcalls =>
      refine ⟨before ++ chunk, ?_, ?_⟩
      · rw [held_eq_nil
          (by intro b; by_cases hshort : chunk.length < p.size.toNat <;> simp [hshort])]
        show produced r.calls = before ++ chunk ++ []
        rw [hcalls, produced_append, produced_append, produced_handing, produced_ending,
          hproduced, List.append_assoc, List.append_nil, List.append_nil, hchunk]
      · rcases (log.receive (.emitted p.partitions chunk.length) p.sink).1 with fault | _
        · simpa [answerOf, Answer.chunk?] using hsub.trans (List.sublist_append_left _ _)
        · simpa [answerOf, Answer.chunk?] using hsub.append (List.Sublist.refl chunk)
  | broken _ _ asked r ahead _ _ _ _ hcalls hahead =>
      refine hnone rfl (p.held ++ produced asked) ?_
      have hheld : held { p with source := r, ahead } = [] :=
        held_eq_nil (by rcases hahead with rfl | rfl <;> simp)
      rw [hheld, List.append_nil, ← List.append_assoc, ← hproduced, ← produced_append]
      exact congrArg produced hcalls
  | closed outcome r _ hcalls =>
      refine hnone (chunk?_answerOf (fun _ => rfl) _) p.held ?_
      show produced r.calls = before ++ p.held ++ []
      rw [hcalls, produced_append, hproduced]
      rfl

end Step

/-! ## The end of a history -/

namespace History

/-- The call at `j` reports the end. -/
def ReportsEndAt (h : History ω σ τ α) (j : Nat) : Prop :=
  ∃ op answer, h.ops[j]? = some op ∧ h.answers[j]? = some answer ∧ ReportsEnd (h.asked j) op answer

/-- Among the first `i` calls is one of `stop`, or one that reports the end. -/
def Over (h : History ω σ τ α) (i : Nat) : Prop :=
  ∃ j < i, h.ops[j]? = some .stop ∨ h.ReportsEndAt j

section

variable {h : History ω σ τ α} {log : Sink ω τ}

theorem over_succ (i : Nat) :
    h.Over (i + 1) ↔ h.Over i ∨ h.ops[i]? = some .stop ∨ h.ReportsEndAt i :=
  Nat.exists_lt_succ_right

theorem reportsEndAt_iff {i : Nat} {op : Operation} {answer : Answer ω α}
    (hop : h.ops[i]? = some op) (hanswer : h.answers[i]? = some answer) :
    h.ReportsEndAt i ↔ ReportsEnd (h.asked i) op answer := by
  constructor
  · rintro ⟨op', answer', hop', hanswer', hreports⟩
    rw [hop] at hop'
    rw [hanswer] at hanswer'
    cases hop'
    cases hanswer'
    exact hreports
  · intro hreports
    exact ⟨op, answer, hop, hanswer, hreports⟩

/-- Unless the log fails, the partitioner is at its end when `stop` was called or the end was
reported. -/
theorem Runs.ended_iff (hruns : h.Runs log) (hlog : log.NeverFails)
    (hstart : (h.after 0).ended = false) (i : Nat) : (h.after i).ended = true ↔ h.Over i := by
  induction i with
  | zero =>
      refine iff_of_false (by simp [hstart]) ?_
      rintro ⟨j, hj, -⟩
      exact Nat.not_lt_zero j hj
  | succ i ih =>
      rw [over_succ]
      cases hop : h.ops[i]? with
      | none =>
          rw [(hruns.idle i hop).2, ih]
          simp [ReportsEndAt, hop]
      | some op =>
          obtain ⟨answer, hanswer, hstep⟩ := hruns.step i op hop
          rw [hstep.ended_iff hlog, ih, reportsEndAt_iff hop hanswer, Option.some.injEq]

theorem Runs.handsOutProduced (hruns : h.Runs log) (hstart : (h.after 0).ahead = none) (i : Nat) :
    HandsOutProduced (h.delivered i) (h.after i) := by
  refine hruns.invariant (P := HandsOutProduced) ?_
    (fun _ _ _ _ _ _ hp hstep => hstep.handsOutProduced hp) i
  exact ⟨produced (h.after 0).source.calls, by simp [held, hstart], List.nil_sublist _⟩

/-- At its end a partitioner stays as it is, whatever is called. -/
theorem Runs.stays (hruns : h.Runs log) {i : Nat} (hend : (h.after i).ended = true) (n : Nat) :
    h.after (i + n) = h.after i ∧ h.delivered (i + n) = h.delivered i := by
  induction n with
  | zero => exact ⟨rfl, rfl⟩
  | succ n ih =>
      obtain ⟨hsame, hchunks⟩ := ih
      rw [← hsame] at hend
      rw [← Nat.add_assoc, ← hsame, ← hchunks]
      cases hop : h.ops[i + n]? with
      | none =>
          obtain ⟨hnone, hafter⟩ := hruns.idle (i + n) hop
          exact ⟨hafter, delivered_succ_of_none hnone⟩
      | some op =>
          obtain ⟨answer, hanswer, hstep⟩ := hruns.step (i + n) op hop
          obtain ⟨-, rfl, hafter⟩ := hstep.of_ended hend
          refine ⟨hafter, ?_⟩
          rw [delivered_succ hanswer, chunk?_endAnswer, Option.toList_none, List.append_nil]

/-- From the end on nothing is handed out. -/
theorem Runs.handedOut_of_ended (hruns : h.Runs log) {i : Nat} (hend : (h.after i).ended = true) :
    handedOut h.answers = h.delivered i := by
  have hall : handedOut h.answers = h.delivered (i + h.answers.length) := by
    rw [delivered, List.take_of_length_le (Nat.le_add_left _ _)]
  rw [hall]
  exact (hruns.stays hend _).2

end

end History

/-- What a run does once it is over. -/
structure EndsForGood (h : History ω σ τ α) : Prop where
  /-- Every call answers that this is the end, asks nothing of the source and changes nothing, -/
  settled : ∀ i op, h.Over i → h.ops[i]? = some op →
    h.answers[i]? = some (op.endAnswer (h.after i).partitions) ∧ h.asked i = [] ∧
      h.after (i + 1) = h.after i
  /-- as it would with every other source and log, because it uses neither. -/
  unused : ∀ i op, h.Over i → ∀ (src : Source ω (Recorded ω σ α) α) (log : Sink ω τ),
    perform src log op (h.after i) = (op.endAnswer (h.after i).partitions, h.after i)
  /-- So the source is closed by the first `stop`, if the end was not reported before it, -/
  closes_iff : ∀ i,
    (∃ outcome, .close outcome ∈ h.asked i) ↔ h.ops[i]? = some .stop ∧ ¬ h.Over i
  /-- and at most once. -/
  closings_le : ∀ i, closings (h.after i).source.calls ≤ 1
  /-- An element held ahead at `stop` is the last one that the source has produced. What is handed
  out, then and ever, comes from the elements before it. -/
  dropped : ∀ i a, h.ops[i]? = some .stop → (h.after i).ahead = some (.element a) →
    handedOut h.answers = h.delivered i ∧
      ∃ before, produced (h.after i).source.calls = before ++ [a] ∧
        (handedOut h.answers).flatten.Sublist before

/-- **After `stop`, or after a report of the end, every call reports the end and does nothing
else.** Of the fault of `nextOrFail` the class and the code say so. -/
theorem run_ends_for_good [Objects ω] (src : Source ω σ α) {log : Sink ω τ} (hlog : log.NeverFails)
    (size : PartitionSize) (s : σ) (t : τ) (ops : List Operation) :
    EndsForGood (history src log ops (start size s t)) ∧
      ∀ partitions, ∃ (fault : Fault ω) (report : Report ω),
        (Operation.nextOrFail.endAnswer partitions : Answer ω α) = .failed fault ∧
          fault.report? = some report ∧ report.errorClass = .ofPartitions ∧
          report.code = .noSuchElement := by
  refine ⟨?_, fun partitions => ⟨_, _, rfl, rfl, rfl, rfl⟩⟩
  have hruns := history_runs src log ops (start size s t)
  have hended := hruns.ended_iff hlog rfl
  constructor
  · intro i op hover hop
    have hend := (hended i).mpr hover
    obtain ⟨answer, hanswer, hstep⟩ := hruns.step i op hop
    obtain ⟨hasked, rfl, hafter⟩ := hstep.of_ended hend
    exact ⟨hanswer, hasked, hafter⟩
  · intro i op hover src log
    exact perform_of_ended src log op ((hended i).mpr hover)
  · intro i
    rw [← hended i, Bool.not_eq_true]
    constructor
    · rintro ⟨outcome, hmem⟩
      obtain ⟨op, answer, hop, -, hstep⟩ := hruns.exists_step (List.ne_nil_of_mem hmem)
      obtain ⟨rfl, hend⟩ := hstep.close_mem_iff.mp ⟨outcome, hmem⟩
      exact ⟨hop, hend⟩
    · rintro ⟨hop, hend⟩
      obtain ⟨answer, -, hstep⟩ := hruns.step i .stop hop
      exact hstep.close_mem_iff.mpr ⟨rfl, hend⟩
  · intro i
    exact hruns.closings_le (noted_start src log ops size s t) i
  · intro i a hop hahead
    obtain ⟨answer, hanswer, hstep⟩ := hruns.step i .stop hop
    -- the call of `stop` is the end, and hands out nothing itself
    have hend : ((history src log ops (start size s t)).after (i + 1)).ended = true :=
      (hstep.ended_iff hlog).mpr (.inr (.inl rfl))
    have hall := hruns.handedOut_of_ended hend
    rw [History.delivered_succ hanswer, hstep.chunk?_of_stop, Option.toList_none,
      List.append_nil] at hall
    obtain ⟨before, hproduced, hsub⟩ := hruns.handsOutProduced rfl i
    rw [held, hahead] at hproduced
    rw [hall]
    exact ⟨rfl, before, hproduced, hsub⟩

/-- A script of three elements whose closing fails, under partitions of two. The third element is
held ahead when `stop` fails, and the calls after that find the end. -/
theorem run_ends_for_good_where_closing_fails :
    let size : PartitionSize := ⟨2, by decide⟩
    let feed : Feed Item := .fresh (.script ⟨Script.handing [(.bool false, .bigint 1),
      (.bool false, .bigint 2), (.bool false, .bigint 3)], .reply .ended, .fails "refused"⟩)
    let p : Partitioner (Feed Item) (Log PartitionEvent) (Value Item) := start size feed .empty
    let ops := [.next, .hasMore, .stop, .hasMore, .next, .nextOrFail, .stop]
    let h := history Feed.source Sink.recording ops p
    (Sink.recording : Sink Item (Log PartitionEvent)).NeverFails ∧ EndsForGood h ∧ h.Over 3 ∧
      h.answers = [.partition [.bigint 1, .bigint 2], .more true, .failed (.raised "refused"),
        .more false, .exhausted, .failed (.noPartitionsRemain 1), .stopped] ∧
      (h.after 7).source.state.closings = 1 := by
  intro size feed p ops h
  let _ : Objects Item := Catalog.featureless
  have hends := run_ends_for_good Feed.source Sink.recording_neverFails size feed .empty ops
  exact ⟨Sink.recording_neverFails, hends.1, ⟨2, by decide, .inl rfl⟩, rfl, rfl⟩

end Partitioner

end Arrange
