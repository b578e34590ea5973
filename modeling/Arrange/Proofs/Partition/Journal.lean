import Arrange.Proofs.Partition.Ending

/-!
# The log of a run

A recording log shows what was handed out: one entry for each partition, in order, and then one
entry for the end, if the source came to it before `stop`. The counters of the partitioner agree
with both. Main statement: `run_keeps_journal`.

`Notes` lists what a step can add to the log. `History.Kept` is what a history keeps.
-/

set_option autoImplicit false

namespace Arrange.Partitioner

open SourceCall

variable {ω σ τ α : Type}

/-! ## Entries -/

/-- An entry of a log as it is read: its level, its message, and its data under their names. -/
abbrev Entry := LogLevel × Text × List (Text × Nat)

/-- The entries of a log of partitioning, oldest first. -/
def entries (log : Log PartitionEvent) : List Entry :=
  log.calls.map fun call => (call.level, call.message, call.data.data)

/-- The entry for the partition at an index. -/
def emission (index : Nat) (chunk : List α) : Entry :=
  (.debug, "Partition emitted", [("index", index), ("size", chunk.length)])

/-- The entries for partitions, in order. -/
def emissions (chunks : List (List α)) : List Entry := chunks.mapIdx emission

/-- The entry for the end after these partitions: how many they are, and how many elements they
have. -/
def exhaustion (chunks : List (List α)) : Entry :=
  (.debug, "Source exhausted",
    [("partitions", chunks.length), ("elements", chunks.flatten.length)])

theorem entries_record (log : Log PartitionEvent) (event : PartitionEvent) :
    entries (log.record .debug event.message event)
      = entries log ++ [(.debug, event.message, event.data)] := by
  rw [entries, Log.record, List.map_append]
  rfl

theorem emissions_snoc (chunks : List (List α)) (chunk : List α) :
    emissions (chunks ++ [chunk]) = emissions chunks ++ [emission chunks.length chunk] :=
  List.mapIdx_concat

/-! ## One call -/

/-- What a step adds to a recording log, and to the counters. -/
inductive Notes (p q : Partitioner (Recorded ω σ α) (Log PartitionEvent) α) (op : Operation)
    (asked : List (SourceCall ω α)) : Answer ω α → Prop
  /-- A partition is handed out. -/
  | emitted (chunk : List α) (hend : p.ended = false)
      (hnot : ¬ ReportsEnd asked op (.partition chunk))
      (hsink : q.sink = p.sink.record .debug
        (PartitionEvent.emitted p.partitions chunk.length).message
        (.emitted p.partitions chunk.length))
      (hpartitions : q.partitions = p.partitions + 1)
      (helements : q.elements = p.elements + chunk.length) : Notes p q op asked (.partition chunk)
  /-- The end is reported for the first time. -/
  | exhausted (answer : Answer ω α) (hend : p.ended = false) (hreports : ReportsEnd asked op answer)
      (hnone : answer.chunk? = none)
      (hsink : q.sink = p.sink.record .debug
        (PartitionEvent.exhausted p.partitions p.elements).message
        (.exhausted p.partitions p.elements))
      (hpartitions : q.partitions = p.partitions) (helements : q.elements = p.elements) :
      Notes p q op asked answer
  | nothing (answer : Answer ω α) (hnot : p.ended = false → ¬ ReportsEnd asked op answer)
      (hnone : answer.chunk? = none) (hsink : q.sink = p.sink)
      (hpartitions : q.partitions = p.partitions) (helements : q.elements = p.elements) :
      Notes p q op asked answer

theorem Step.notes {op : Operation} {asked : List (SourceCall ω α)} {answer : Answer ω α}
    {p q : Partitioner (Recorded ω σ α) (Log PartitionEvent) α}
    (h : Step Sink.recording p op asked answer q) : Notes p q op asked answer := by
  cases h with
  | settled _ hend =>
      refine .nothing _ (fun hnot => ?_) (chunk?_endAnswer _ _) rfl rfl rfl
      exact absurd (hnot.symm.trans hend) Bool.false_ne_true
  | looked _ _ _ _ => exact .nothing _ (fun _ h => Bool.noConfusion h) rfl rfl rfl rfl
  | reported _ told _ hop hend =>
      have hreports : ReportsEnd (ending told) op
          (op.endAnswer p.partitions : Answer ω α) :=
        reportsEnd_endAnswer _ hop (by cases told <;> simp [ending])
      exact .exhausted _ hend hreports (chunk?_endAnswer _ _) rfl rfl rfl
  | filled _ xs chunk _ hop hend =>
      refine .emitted chunk hend ?_ rfl rfl rfl
      rcases hop with rfl | rfl <;> exact id
  | broken _ _ _ _ _ _ _ _ hbreaks =>
      exact .nothing _ (fun _ => not_reportsEnd_of_breaksOff hbreaks) rfl rfl rfl rfl
  | closed outcome =>
      refine .nothing _ (fun _ => ?_) (chunk?_answerOf (fun _ => rfl) _) rfl rfl rfl
      cases outcome <;> exact id

section Step

variable {log : Sink ω τ} {op : Operation} {answer : Answer ω α}
  {p q : Partitioner (Recorded ω σ α) τ α} {asked : List (SourceCall ω α)} {fault : Fault ω}

/-- Whether the source raised this fault in these calls. -/
def Raised (fault : Fault ω) (asked : List (SourceCall ω α)) : Prop :=
  .pull (.error fault) ∈ asked ∨ .close (.error fault) ∈ asked

theorem not_raised_handing (fault : Fault ω) (xs : List α) (told : Bool) :
    ¬ Raised fault (handing xs ++ ending told : List (SourceCall ω α)) := by
  cases told <;> simp [Raised, handing, ending]

/-- A call in which the source fails, fails in the same way. Log and counters stay as they were. -/
theorem Step.of_raised (h : Step log p op asked answer q) (hraised : Raised fault asked) :
    answer = .failed fault ∧ q.sink = p.sink ∧ q.partitions = p.partitions ∧
      q.elements = p.elements := by
  cases h with
  | settled => rcases hraised with h | h <;> cases h
  | looked _ xs =>
      refine absurd hraised ?_
      simpa [ending] using not_raised_handing fault xs false
  | reported _ told => exact absurd hraised (not_raised_handing fault [] told)
  | filled _ xs => exact absurd hraised (not_raised_handing fault xs _)
  | broken _ own _ _ _ _ _ _ hbreaks =>
      rcases hraised with hmem | hmem
      · rw [hbreaks.eq_of_mem hmem]
        exact ⟨rfl, rfl, rfl, rfl⟩
      · exact absurd hmem (hbreaks.close_not_mem _)
  | closed outcome =>
      have houtcome : outcome = .error fault := by simpa [Raised, eq_comm] using hraised
      rw [houtcome]
      exact ⟨rfl, rfl, rfl, rfl⟩

/-- A call that is told by the partitioner that nothing remains is told the number of partitions. -/
theorem Step.eq_partitions (hlog : log.NeverFails) {k : Nat}
    (h : Step log p op asked (.failed (.noPartitionsRemain k)) q)
    (hnot : ¬ Raised (.noPartitionsRemain k) asked) : k = p.partitions := by
  have hend (h : (.failed (.noPartitionsRemain k) : Answer ω α) = op.endAnswer p.partitions) :
      k = p.partitions := by
    cases op <;> cases h
    rfl
  generalize hanswer : (.failed (.noPartitionsRemain k) : Answer ω α) = answer at h
  cases h with
  | settled => exact hend hanswer
  | looked => cases hanswer
  | reported =>
      rw [hlog] at hanswer
      exact hend hanswer
  | filled =>
      rw [hlog] at hanswer
      cases hanswer
  | broken _ own _ _ _ _ _ _ hbreaks =>
      cases hanswer
      rcases hbreaks.fault_cases with hfault | hmem
      · cases hfault
      · exact absurd (.inl hmem) hnot
  | closed outcome =>
      cases outcome with
      | ok => cases hanswer
      | error own =>
          cases hanswer
          exact absurd (.inr (List.mem_singleton.mpr rfl)) hnot

end Step

/-! ## The log of a history -/

namespace History

/-- Among the first `i` calls is one that reports the end, before any call of `stop`. -/
def Exhausted (h : History ω σ τ α) (i : Nat) : Prop :=
  ∃ j < i, h.ReportsEndAt j ∧ ¬ h.Over j

theorem exhausted_succ {h : History ω σ τ α} (i : Nat) :
    h.Exhausted (i + 1) ↔ h.Exhausted i ∨ (h.ReportsEndAt i ∧ ¬ h.Over i) :=
  Nat.exists_lt_succ_right

theorem Exhausted.over {h : History ω σ τ α} {i : Nat} (hexhausted : h.Exhausted i) : h.Over i := by
  obtain ⟨j, hj, hreports, -⟩ := hexhausted
  exact ⟨j, hj, .inr hreports⟩

/-- What the log and the counters say of the partitions handed out by the first `i` calls. -/
structure Kept (h : History ω σ (Log PartitionEvent) α) (i : Nat) : Prop where
  running : ¬ h.Exhausted i → entries (h.after i).sink = emissions (h.delivered i)
  exhausted : h.Exhausted i →
    entries (h.after i).sink = emissions (h.delivered i) ++ [exhaustion (h.delivered i)]
  partitions : (h.after i).partitions = (h.delivered i).length
  elements : (h.after i).elements = (h.delivered i).flatten.length

section Kept

variable {h : History ω σ (Log PartitionEvent) α} {i : Nat}

/-- Where nothing is handed out or logged and no end is reported, everything stays. -/
theorem Kept.stays (hkept : h.Kept i) (hsame : h.Exhausted (i + 1) ↔ h.Exhausted i)
    (hchunks : h.delivered (i + 1) = h.delivered i)
    (hsink : (h.after (i + 1)).sink = (h.after i).sink)
    (hpartitions : (h.after (i + 1)).partitions = (h.after i).partitions)
    (helements : (h.after (i + 1)).elements = (h.after i).elements) : h.Kept (i + 1) := by
  constructor
  · rw [hsame, hsink, hchunks]
    exact hkept.running
  · rw [hsame, hsink, hchunks]
    exact hkept.exhausted
  · rw [hpartitions, hchunks]
    exact hkept.partitions
  · rw [helements, hchunks]
    exact hkept.elements

/-- A partition that is handed out before the end is logged with the next index. -/
theorem Kept.emits (hkept : h.Kept i) {chunk : List α} (hnot : ¬ h.Exhausted i)
    (hnot' : ¬ h.Exhausted (i + 1)) (hchunks : h.delivered (i + 1) = h.delivered i ++ [chunk])
    (hsink : (h.after (i + 1)).sink = (h.after i).sink.record .debug
      (PartitionEvent.emitted (h.after i).partitions chunk.length).message
      (.emitted (h.after i).partitions chunk.length))
    (hpartitions : (h.after (i + 1)).partitions = (h.after i).partitions + 1)
    (helements : (h.after (i + 1)).elements = (h.after i).elements + chunk.length) :
    h.Kept (i + 1) := by
  constructor
  · intro _
    rw [hsink, entries_record, hkept.running hnot, hchunks, emissions_snoc, ← hkept.partitions]
    rfl
  · intro hexhausted
    exact absurd hexhausted hnot'
  · rw [hpartitions, hkept.partitions, hchunks, List.length_append]
    rfl
  · rw [helements, hkept.elements, hchunks, List.flatten_append, List.length_append,
      List.flatten_singleton]

/-- The first report of the end is logged with the counters. -/
theorem Kept.exhausts (hkept : h.Kept i) (hnot : ¬ h.Exhausted i)
    (hexhausted : h.Exhausted (i + 1)) (hchunks : h.delivered (i + 1) = h.delivered i)
    (hsink : (h.after (i + 1)).sink = (h.after i).sink.record .debug
      (PartitionEvent.exhausted (h.after i).partitions (h.after i).elements).message
      (.exhausted (h.after i).partitions (h.after i).elements))
    (hpartitions : (h.after (i + 1)).partitions = (h.after i).partitions)
    (helements : (h.after (i + 1)).elements = (h.after i).elements) : h.Kept (i + 1) := by
  constructor
  · intro hnot'
    exact absurd hexhausted hnot'
  · intro _
    rw [hsink, entries_record, hkept.running hnot, hchunks, exhaustion, ← hkept.partitions,
      ← hkept.elements]
    rfl
  · rw [hpartitions, hchunks]
    exact hkept.partitions
  · rw [helements, hchunks]
    exact hkept.elements

theorem Runs.kept (hruns : h.Runs Sink.recording) {s : Recorded ω σ α} {size : PartitionSize}
    (hstart : h.after 0 = start size s .empty) (i : Nat) : h.Kept i := by
  have hended := hruns.ended_iff Sink.recording_neverFails (by rw [hstart]; rfl)
  induction i with
  | zero =>
      have hnot : ¬ h.Exhausted 0 := by
        rintro ⟨j, hj, -⟩
        exact Nat.not_lt_zero j hj
      refine ⟨fun _ => ?_, fun hexhausted => absurd hexhausted hnot, ?_, ?_⟩
      all_goals
        rw [hstart]
        rfl
  | succ i ih =>
      cases hop : h.ops[i]? with
      | none =>
          obtain ⟨hnone, hafter⟩ := hruns.idle i hop
          have hsame : h.Exhausted (i + 1) ↔ h.Exhausted i := by
            simp [exhausted_succ, ReportsEndAt, hop]
          exact ih.stays hsame (delivered_succ_of_none hnone) (by rw [hafter]) (by rw [hafter])
            (by rw [hafter])
      | some op =>
          obtain ⟨answer, hanswer, hstep⟩ := hruns.step i op hop
          have hsucc := exhausted_succ (h := h) i
          rw [reportsEndAt_iff hop hanswer] at hsucc
          have hchunks := delivered_succ hanswer
          -- before the end nothing is exhausted
          have hrunning (hend : (h.after i).ended = false) : ¬ h.Over i := by
            rw [← hended i, hend]
            exact Bool.false_ne_true
          cases hstep.notes with
          | emitted chunk hend hreports hsink hpartitions helements =>
              have hnot : ¬ h.Exhausted i := fun hexhausted => hrunning hend hexhausted.over
              have hnot' : ¬ h.Exhausted (i + 1) := by
                rw [hsucc]
                rintro (hexhausted | ⟨hreported, -⟩)
                · exact hnot hexhausted
                · exact hreports hreported
              exact ih.emits hnot hnot' hchunks hsink hpartitions helements
          | exhausted _ hend hreports hnone hsink hpartitions helements =>
              have hnot : ¬ h.Exhausted i := fun hexhausted => hrunning hend hexhausted.over
              have hexhausted : h.Exhausted (i + 1) := hsucc.mpr (.inr ⟨hreports, hrunning hend⟩)
              rw [hnone, Option.toList_none, List.append_nil] at hchunks
              exact ih.exhausts hnot hexhausted hchunks hsink hpartitions helements
          | nothing _ hreports hnone hsink hpartitions helements =>
              rw [hnone, Option.toList_none, List.append_nil] at hchunks
              have hsame : h.Exhausted (i + 1) ↔ h.Exhausted i := by
                rw [hsucc, or_iff_left]
                rintro ⟨hreported, hover⟩
                rw [← hended i, Bool.not_eq_true] at hover
                exact hreports hover hreported
              exact ih.stays hsame hchunks hsink hpartitions helements

end Kept

end History

/-- What the log of a run shows. -/
structure KeepsJournal [Objects ω] (h : History ω σ (Log PartitionEvent) α) : Prop where
  /-- Unless the end was reported before any `stop`, the log has an entry for each partition handed
  out, and no other. -/
  running : ∀ i, ¬ h.Exhausted i → entries (h.after i).sink = emissions (h.delivered i)
  /-- From that report on, the entry for the end follows, -/
  exhausted : ∀ i, h.Exhausted i →
    entries (h.after i).sink = emissions (h.delivered i) ++ [exhaustion (h.delivered i)]
  /-- and none comes after it. -/
  last : ∀ i j, h.Exhausted i → i ≤ j → (h.after j).sink = (h.after i).sink
  /-- A call in which the source fails, fails in the same way, and neither the log nor a counter
  moves. -/
  raised : ∀ i fault, Raised fault (h.asked i) →
    h.answers[i]? = some (.failed fault) ∧ (h.after (i + 1)).sink = (h.after i).sink ∧
      (h.after (i + 1)).partitions = (h.after i).partitions ∧
      (h.after (i + 1)).elements = (h.after i).elements
  /-- The counters are those of the partitions handed out, -/
  partitions : ∀ i, (h.after i).partitions = (h.delivered i).length
  elements : ∀ i, (h.after i).elements = (h.delivered i).flatten.length
  /-- and a fault that says that nothing remains, and is not the source's own, gives their
  number. -/
  noneRemain : ∀ i fault report, h.answers[i]? = some (.failed fault) →
    fault.report? = some report → report.code = .noSuchElement → ¬ Raised fault (h.asked i) →
      report.context =
        [(Text.ofString "partitions", Value.number (Float.ofNat (h.delivered i).length))]

/-- **A recording log has an entry for each partition handed out, in order, and an entry for the end
exactly when it was reported before any `stop`.** -/
theorem run_keeps_journal [Objects ω] (src : Source ω σ α) (size : PartitionSize) (s : σ)
    (ops : List Operation) :
    KeepsJournal (history src Sink.recording ops (start size s .empty)) := by
  have hruns := history_runs src Sink.recording ops (start size s .empty)
  have hstart : (history src Sink.recording ops (start size s .empty)).after 0
      = start size (.fresh s) .empty := rfl
  have hkept := hruns.kept hstart
  constructor
  · intro i
    exact (hkept i).running
  · intro i
    exact (hkept i).exhausted
  · intro i j hexhausted hle
    have hend := (hruns.ended_iff Sink.recording_neverFails rfl i).mpr hexhausted.over
    obtain ⟨n, rfl⟩ := Nat.exists_eq_add_of_le hle
    rw [(hruns.stays hend n).1]
  · intro i fault hraised
    have hne : (history src Sink.recording ops (start size s .empty)).asked i ≠ [] := by
      rcases hraised with hmem | hmem <;> exact List.ne_nil_of_mem hmem
    obtain ⟨op, answer, hop, hanswer, hstep⟩ := hruns.exists_step hne
    obtain ⟨rfl, hsink, hpartitions, helements⟩ := hstep.of_raised hraised
    exact ⟨hanswer, hsink, hpartitions, helements⟩
  · intro i
    exact (hkept i).partitions
  · intro i
    exact (hkept i).elements
  · intro i fault report hanswer hreport hcode hnot
    cases hop : (history src Sink.recording ops (start size s .empty)).ops[i]? with
    | none =>
        rw [(hruns.idle i hop).1] at hanswer
        cases hanswer
    | some op =>
        obtain ⟨answer, hown, hstep⟩ := hruns.step i op hop
        rw [hanswer] at hown
        cases hown
        cases fault with
        | noPartitionsRemain k =>
            have hcount := hstep.eq_partitions Sink.recording_neverFails hnot
            rw [(hkept i).partitions] at hcount
            cases hreport
            rw [hcount]
        | illTyped => cases hreport
        | raised => cases hreport
        | _ =>
            -- the faults with other codes
            cases hreport
            cases hcode

end Arrange.Partitioner
