import Arrange.Catalog
import Arrange.Proofs.Partition.Record
import Arrange.Proofs.Partition.Yield
import Mathlib.Data.List.Induction

/-!
# What failing calls lose

A consumer calls `next` again and again, also after a call that failed. The source may fail at any
pull and go on afterwards, and so may the log. A call that fails loses the elements that it has read
itself, at most one partition of them; everything else that the source produced is handed out, in
order. So nothing is lost exactly when no failing call has read an element. Main statement:
`run_next_loses_only_to_failures`.

Between the calls nothing is held ahead, so that the elements a call reads are those produced
meanwhile (`next_of_nothing_held`).
-/

set_option autoImplicit false

namespace Arrange.Partitioner

open SourceCall

variable {ω σ τ α : Type} {p : Partitioner (Recorded ω σ α) τ α}

/-! ## One call -/

/-- What looking ahead leaves when nothing was held: an element that the source produced just now,
or nothing, and then the source produced nothing. -/
inductive Found (p : Partitioner (Recorded ω σ α) τ α) :
    Outcome ω (Recorded ω σ α) τ α Bool → Prop
  | element (a : α) (q : Partitioner (Recorded ω σ α) τ α) (hsize : q.size = p.size)
      (hahead : q.ahead = some (.element a))
      (hproduced : produced q.source.calls = produced p.source.calls ++ [a]) : Found p (.ok true, q)
  | nothing (outcome : Except (Fault ω) Bool) (q : Partitioner (Recorded ω σ α) τ α)
      (hne : outcome ≠ .ok true) (hsize : q.size = p.size) (hheld : q.held = [])
      (hproduced : produced q.source.calls = produced p.source.calls) : Found p (outcome, q)

/-- An answer of the source that is no element leaves nothing held. -/
theorem inspect_of_no_element (log : Sink ω τ) {answer : Pulled α}
    (hanswer : ∀ a, answer ≠ .element a) {q : Partitioner (Recorded ω σ α) τ α}
    (hsize : q.size = p.size) (hproduced : produced q.source.calls = produced p.source.calls) :
    Found p (inspect log answer q) := by
  cases answer with
  | element a => exact absurd rfl (hanswer a)
  | finished =>
      rw [inspect, reportEnd_eq]
      refine .nothing _ _ ?_ hsize rfl hproduced
      rcases (log.receive _ _).1 with _ | _ <;> simp [Except.map]
  | blank => exact .nothing _ _ (by simp) hsize rfl hproduced
  | unreadable => exact .nothing _ _ (by simp) hsize rfl hproduced

theorem hasMore_of_nothing_held (src : Source ω σ α) (log : Sink ω τ) (hheld : p.held = []) :
    Found p (hasMore src.recorded log p) := by
  cases hend : p.ended with
  | true =>
      rw [hasMore_of_ended hend]
      exact .nothing _ _ (by simp) rfl hheld rfl
  | false =>
      cases hahead : p.ahead with
      | some answer =>
          have hanswer (a : α) : answer ≠ .element a := by
            rintro rfl
            simp [held, hahead] at hheld
          rw [hasMore_of_ahead hend hahead]
          exact inspect_of_no_element log hanswer rfl rfl
      | none =>
          rcases hpull : src.pull p.source.state with ⟨outcome, s⟩
          have hrecord := Source.recorded_pull hpull
          -- a pull without an element produces nothing
          have hnothing (h : element? (.pull outcome) = none) :
              produced (p.source.calls ++ [.pull outcome]) = produced p.source.calls := by
            rw [produced_append, produced_of_no_element h, List.append_nil]
          cases outcome with
          | error fault =>
              rw [hasMore_of_broken hend hahead hrecord]
              exact .nothing _ _ (by simp) rfl (by rw [held, hahead]) (hnothing rfl)
          | ok answer =>
              rw [hasMore_of_pull hend hahead hrecord]
              cases answer with
              | element a => exact .element a _ rfl rfl (produced_append _ _)
              | _ => exact inspect_of_no_element log (by simp) rfl (hnothing rfl)

/-- What a call makes of the elements that it reads: it hands them out, or there are none, or it
fails and they are lost. -/
inductive Spends (size : PartitionSize) : Answer ω α → List α → Prop
  | partition (chunk : List α) : Spends size (.partition chunk) chunk
  | exhausted : Spends size .exhausted []
  | failed (fault : Fault ω) (lost : List α) (hle : lost.length ≤ size.toNat) :
      Spends size (.failed fault) lost

/-- A partition is lost when its log fails. -/
theorem Spends.of_logged {size : PartitionSize} {chunk : List α} (hle : chunk.length ≤ size.toNat)
    (logged : Except (Fault ω) Unit) :
    Spends size (answerOf nextAnswer (logged.map fun _ => some chunk)) chunk := by
  cases logged with
  | error fault => exact .failed fault chunk hle
  | ok _ => exact .partition chunk

theorem fill_spends (src : Source ω σ α) (log : Sink ω τ) (a : α)
    (p : Partitioner (Recorded ω σ α) τ α) :
    ∃ outcome q rest, fill src.recorded log a p = (outcome, q) ∧ q.size = p.size ∧ q.held = [] ∧
      produced q.source.calls = produced p.source.calls ++ rest ∧
      Spends p.size (answerOf nextAnswer outcome) (a :: rest) := by
  have hread := gather_recorded src (p.size.toNat - 1) p.source
  rcases hgather : gather src.recorded (p.size.toNat - 1) p.source with ⟨result, source⟩
  rw [hgather] at hread
  -- the element ahead has one of the places of the partition
  have hle {rest : List α} (h : rest.length ≤ p.size.toNat - 1) :
      (a :: rest).length ≤ p.size.toNat := by
    have hpos := p.size.pos
    rw [List.length_cons]
    omega
  cases hread with
  | full rest hlength =>
      rw [fill_of_gather hgather, emit_eq]
      exact ⟨_, _, rest, rfl, rfl, rfl, by simp, .of_logged (hle (Nat.le_of_eq hlength)) _⟩
  | short rest hlength =>
      rw [fill_of_gather hgather, emit_eq]
      refine ⟨_, _, rest, rfl, rfl, rfl, ?_, .of_logged (hle (Nat.le_of_lt hlength)) _⟩
      rw [produced_append, produced_of_no_element rfl]
      simp
  | broken rest fault hlength hbroken =>
      refine ⟨_, _, rest, fill_of_broken hgather, rfl, rfl, ?_,
        .failed fault _ (hle (Nat.le_of_lt hlength))⟩
      rw [produced_append, produced_of_no_element (Source.no_element_of_not_answersAt hbroken)]
      simp

theorem next_of_nothing_held (src : Source ω σ α) (log : Sink ω τ) (hheld : p.held = []) :
    ∃ outcome q spent, next src.recorded log p = (outcome, q) ∧ q.size = p.size ∧ q.held = [] ∧
      produced q.source.calls = produced p.source.calls ++ spent ∧
      Spends p.size (answerOf nextAnswer outcome) spent := by
  have hfound := hasMore_of_nothing_held src log hheld
  rcases hmore : hasMore src.recorded log p with ⟨found, q⟩
  rw [hmore] at hfound
  cases hfound with
  | element a _ hsize hahead hproduced =>
      obtain ⟨outcome, r, rest, hfill, hsize', hheld', hproduced', hspends⟩ :=
        fill_spends src log a q
      rw [next_of_more hmore hahead]
      refine ⟨outcome, r, a :: rest, hfill, hsize'.trans hsize, hheld', ?_, hsize ▸ hspends⟩
      rw [hproduced', hproduced, List.append_assoc, List.singleton_append]
  | nothing _ _ hne hsize hheld' hproduced =>
      have hnone : produced q.source.calls = produced p.source.calls ++ [] := by
        rw [hproduced, List.append_nil]
      rcases found with fault | _ | _
      · exact ⟨.error fault, q, [], by simp [next, hmore], hsize, hheld', hnone,
          .failed fault [] (Nat.zero_le _)⟩
      · exact ⟨.ok none, q, [], by simp [next, hmore], hsize, hheld', hnone, .exhausted⟩
      · exact absurd rfl hne

/-! ## A run of calls -/

/-- What a consumer of partitions of `size` is told who does nothing but call `next`, and what the
source produced for it: `produced i` before the call at `i`. -/
structure LosesOnlyToFailures (size : PartitionSize) (answers : List (Answer ω α))
    (produced : Nat → List α) : Prop where
  /-- A call hands out all that it reads, -/
  partition : ∀ i chunk, answers[i]? = some (.partition chunk) →
    produced (i + 1) = produced i ++ chunk
  exhausted : ∀ i, answers[i]? = some .exhausted → produced (i + 1) = produced i
  /-- unless it fails, and loses what it has read. -/
  failed : ∀ i fault, answers[i]? = some (.failed fault) →
    ∃ lost, produced (i + 1) = produced i ++ lost ∧ lost.length ≤ size.toNat
  /-- What is handed out keeps the order, and no element comes twice. -/
  sublist : (handedOut answers).flatten.Sublist (produced answers.length)
  /-- It is all that the source produced when no call that failed has read an element. -/
  all_iff : (handedOut answers).flatten = produced answers.length ↔
    ∀ i fault, answers[i]? = some (.failed fault) → produced (i + 1) = produced i

theorem Spends.sublist {size : PartitionSize} {answer : Answer ω α} {spent : List α}
    (h : Spends size answer spent) : answer.chunk?.toList.flatten.Sublist spent := by
  cases h with
  | partition => simp [Answer.chunk?]
  | exhausted => exact List.nil_sublist []
  | failed => exact List.nil_sublist _

/-- A call that does not fail hands out what it reads; one that fails does when it has read
nothing. -/
theorem Spends.eq_iff {size : PartitionSize} {answer : Answer ω α} {spent : List α}
    (h : Spends size answer spent) :
    answer.chunk?.toList.flatten = spent ↔ ∀ fault, answer = .failed fault → spent = [] := by
  cases h with
  | partition => simp [Answer.chunk?]
  | exhausted => simp [Answer.chunk?]
  | failed => simp [Answer.chunk?, eq_comm]

/-- Lists that grow within two others grow equal exactly when they were equal and grow alike. -/
theorem append_eq_append_iff_of_sublist {as bs cs ds : List α} (hac : as.Sublist cs)
    (hbd : bs.Sublist ds) : as ++ bs = cs ++ ds ↔ as = cs ∧ bs = ds := by
  refine ⟨fun h => List.append_inj h ?_, fun ⟨h, h'⟩ => by rw [h, h']⟩
  have hlength := congrArg List.length h
  rw [List.length_append, List.length_append] at hlength
  have hle := hac.length_le
  have hle' := hbd.length_le
  omega

section Spending

variable {size : PartitionSize} {answers : List (Answer ω α)} {produced : Nat → List α}

theorem handedOut_of_spends (hnil : produced 0 = [])
    (hspends : ∀ i answer, answers[i]? = some answer →
      ∃ spent, produced (i + 1) = produced i ++ spent ∧ Spends size answer spent) :
    (handedOut answers).flatten.Sublist (produced answers.length) ∧
      ((handedOut answers).flatten = produced answers.length ↔
        ∀ i fault, answers[i]? = some (.failed fault) → produced (i + 1) = produced i) := by
  -- from the end of the run, where the last call adds to both sides
  induction answers using List.reverseRecOn with
  | nil => simp [handedOut, hnil]
  | append_singleton answers answer ih =>
      have hbefore (i : Nat) (told : Answer ω α) (hi : answers[i]? = some told) :
          (answers ++ [answer])[i]? = some told := by
        obtain ⟨hlt, -⟩ := List.getElem?_eq_some_iff.mp hi
        rw [List.getElem?_append_left hlt, hi]
      have hlast : (answers ++ [answer])[answers.length]? = some answer := by simp
      obtain ⟨hsub, hiff⟩ := ih fun i told hi => hspends i told (hbefore i told hi)
      obtain ⟨spent, hproduced, h⟩ := hspends answers.length answer hlast
      rw [List.length_append, List.length_singleton, handedOut_snoc, List.flatten_append, hproduced]
      refine ⟨hsub.append h.sublist, ?_⟩
      rw [append_eq_append_iff_of_sublist hsub h.sublist, hiff, h.eq_iff]
      constructor
      · rintro ⟨hall, hnow⟩ i fault hi
        obtain ⟨hlt, -⟩ := List.getElem?_eq_some_iff.mp hi
        rw [List.length_append, List.length_singleton] at hlt
        rcases Nat.lt_succ_iff_lt_or_eq.mp hlt with hlt | rfl
        · rw [List.getElem?_append_left hlt] at hi
          exact hall i fault hi
        · rw [hlast, Option.some.injEq] at hi
          rw [hproduced, hnow fault hi, List.append_nil]
      · refine fun hall => ⟨fun i fault hi => hall i fault (hbefore i _ hi), ?_⟩
        rintro fault rfl
        have hsame := hall answers.length fault hlast
        rwa [hproduced, List.append_right_eq_self] at hsame

theorem losesOnlyToFailures_of_spends (hnil : produced 0 = [])
    (hspends : ∀ i answer, answers[i]? = some answer →
      ∃ spent, produced (i + 1) = produced i ++ spent ∧ Spends size answer spent) :
    LosesOnlyToFailures size answers produced := by
  obtain ⟨hsub, hiff⟩ := handedOut_of_spends hnil hspends
  refine ⟨fun i chunk hi => ?_, fun i hi => ?_, fun i fault hi => ?_, hsub, hiff⟩
  · obtain ⟨spent, hproduced, h⟩ := hspends i _ hi
    cases h with
    | partition => exact hproduced
  · obtain ⟨spent, hproduced, h⟩ := hspends i _ hi
    cases h with
    | exhausted => rw [hproduced, List.append_nil]
  · obtain ⟨spent, hproduced, h⟩ := hspends i _ hi
    cases h with
    | failed _ _ hle => exact ⟨spent, hproduced, hle⟩

end Spending

/-- The elements that a source produced in a run of `k` calls of `next`. -/
def producedBy (src : Source ω σ α) (log : Sink ω τ) (p : Partitioner σ τ α) (k : Nat) : List α :=
  produced (recordAfter src log (List.replicate k .next) p).source.calls

section Run

variable (src : Source ω σ α) (log : Sink ω τ) (size : PartitionSize) (s : σ) (t : τ)

/-- Between calls of `next` nothing is held ahead. -/
theorem nothing_held_after_next (k : Nat) :
    (recordAfter src log (List.replicate k .next) (start size s t)).held = [] ∧
      (recordAfter src log (List.replicate k .next) (start size s t)).size = size := by
  induction k with
  | zero => exact ⟨rfl, rfl⟩
  | succ k ih =>
      obtain ⟨outcome, q, -, hnext, hsize, hheld, -⟩ := next_of_nothing_held src log ih.1
      rw [List.replicate_succ', recordAfter_snoc, perform, hnext]
      exact ⟨hheld, hsize.trans ih.2⟩

/-- **In a run of calls of `next` only a call that fails loses elements, and only those that it has
read itself.** -/
theorem run_next_loses_only_to_failures (k : Nat) :
    LosesOnlyToFailures size (run src log (List.replicate k .next) (start size s t)).1
      (producedBy src log (start size s t)) := by
  refine losesOnlyToFailures_of_spends rfl fun i answer hi => ?_
  have hlt : i < k := by
    by_contra hge
    rw [getElem?_run, List.getElem?_replicate, if_neg hge] at hi
    cases hi
  have hop : (List.replicate k Operation.next)[i]? = some .next := by
    rw [List.getElem?_replicate, if_pos hlt]
  obtain ⟨hheld, hsize⟩ := nothing_held_after_next src log size s t i
  obtain ⟨outcome, q, spent, hnext, -, -, hproduced, hspends⟩ := next_of_nothing_held src log hheld
  refine ⟨spent, ?_, ?_⟩
  · rw [producedBy, List.replicate_succ', recordAfter_snoc, perform, hnext]
    exact hproduced
  · rw [answer_recorded src log hop, List.take_replicate, Nat.min_eq_left (Nat.le_of_lt hlt),
      perform, hnext, Option.some.injEq] at hi
    rw [← hi, ← hsize]
    exact hspends

end Run

/-- A script whose second pull fails, and a log that fails at its first event. The consumer calls
`next` until the end is reported, and is not given an element that the call that failed has read. -/
theorem run_next_loses_an_element :
    let size : PartitionSize := ⟨2, by decide⟩
    let offline : Feed Item := .fresh (.script ⟨[.reply (.result (.bool false) (.bigint 1)),
      .fails (Text.ofString "offline"), .reply (.result (.bool false) (.bigint 2))],
      .reply .ended, .none⟩)
    let pair : Feed Item := .fresh (.items (.ofList [.bigint 1, .bigint 2]))
    let failingOnce : Sink Item Bool :=
      ⟨fun _ failed => (if failed then .ok () else .error (.raised (Text.ofString "full")), true)⟩
    let answers := (run Feed.source Sink.discard (.replicate 3 .next) (start size offline ())).1
    let answers' := (run Feed.source failingOnce (.replicate 2 .next) (start size pair false)).1
    (answers.getLast? = some .exhausted ∧ (handedOut answers).flatten = [.bigint 2] ∧
      producedBy Feed.source Sink.discard (start size offline ()) 3 = [.bigint 1, .bigint 2]) ∧
    answers'.getLast? = some .exhausted ∧ (handedOut answers').flatten = [] ∧
      producedBy Feed.source failingOnce (start size pair false) 2 = [.bigint 1, .bigint 2] :=
  ⟨⟨rfl, rfl, rfl⟩, rfl, rfl, rfl⟩

end Arrange.Partitioner
