import Arrange.Catalog
import Arrange.Proofs.Partition.Run
import Arrange.Proofs.Partition.Yield
import Arrange.Report
import Mathlib.Tactic

/-!
# The partitions of a list

Over a source of the list `xs` the partitions are the slices of `xs` of the partition size, in
order, whichever of the operations other than `stop` are called in between. The invariant is
`Progress`: after `k` partitions the partitioner holds `xs` without its first `k` slices, as the
element ahead and the rest of the source (`Remains`). Main statement: `run_hands_out_slices`.
-/

set_option autoImplicit false

namespace Arrange

/-! ## Slices -/

namespace PartitionSize

variable {α : Type}

/-- The slice of a list at index `j`: as many elements as the size says, fewer at the end. -/
def slice (size : PartitionSize) (xs : List α) (j : Nat) : List α :=
  xs.extract (j * size.toNat) (min ((j + 1) * size.toNat) xs.length)

/-- The number of slices of a list of this length: its quotient by the size, rounded up. -/
def sliceCount (size : PartitionSize) (length : Nat) : Nat :=
  (length + size.toNat - 1) / size.toNat

theorem slice_eq_take_drop (size : PartitionSize) (xs : List α) (j : Nat) :
    size.slice xs j = (xs.drop (j * size.toNat)).take size.toNat := by
  rw [slice, List.extract_eq_take_drop, Nat.add_mul, Nat.one_mul]
  rw [List.take_eq_take_iff, List.length_drop]
  omega

theorem lt_sliceCount_iff (size : PartitionSize) (k length : Nat) :
    k < size.sliceCount length ↔ k * size.toNat < length := by
  have hpos := size.pos
  rw [← Nat.succ_le_iff, sliceCount, Nat.le_div_iff_mul_le hpos, Nat.succ_mul]
  omega

/-- The first `k` slices joined are the front of the list. -/
theorem flatten_slices (size : PartitionSize) (xs : List α) (k : Nat) :
    ((List.range k).map (size.slice xs)).flatten = xs.take (k * size.toNat) := by
  induction k with
  | zero => simp
  | succ k ih =>
      rw [List.range_succ, List.map_append, List.flatten_append, ih, Nat.succ_mul, List.take_add]
      simp [slice_eq_take_drop]

end PartitionSize

namespace Partitioner

variable {ω σ τ α : Type}

/-! ## What a partitioner still holds -/

/-- The elements that a partitioner has not handed out. Nothing is left when the end was reported,
or when the source told its end in the middle of a partition; else there may be an element ahead,
and the source has the others. -/
inductive Remains (src : Source ω σ α) (p : Partitioner σ τ α) : List α → Prop
  | ended (h : p.ended = true) : Remains src p []
  | parked (hend : p.ended = false) (h : p.ahead = some .finished) : Remains src p []
  | held (a : α) (rest : List α) (hend : p.ended = false) (h : p.ahead = some (.element a))
      (hsrc : src.Yields rest p.source) : Remains src p (a :: rest)
  | fresh (rest : List α) (hend : p.ended = false) (h : p.ahead = none)
      (hsrc : src.Yields rest p.source) : Remains src p rest

theorem Remains.start {src : Source ω σ α} {xs : List α} {s : σ} (hsrc : src.Yields xs s)
    (size : PartitionSize) (t : τ) : Remains src (start size s t) xs :=
  .fresh xs rfl rfl hsrc

section Steps

variable {src : Source ω σ α} {log : Sink ω τ}

/-- What stays the same while nothing is handed out. -/
structure SameCounts (p q : Partitioner σ τ α) : Prop where
  size : q.size = p.size
  partitions : q.partitions = p.partitions

theorem reportEnd_of_neverFails (hlog : log.NeverFails) (p : Partitioner σ τ α) :
    ∃ q, reportEnd log p = (.ok false, q) ∧ SameCounts p q ∧ q.ended = true := by
  rw [reportEnd_eq, hlog]
  exact ⟨_, rfl, ⟨rfl, rfl⟩, rfl⟩

/-- Looking ahead without any element left reports the end. -/
theorem hasMore_of_remains_nil (hlog : log.NeverFails) {p : Partitioner σ τ α}
    (h : Remains src p []) :
    ∃ q, hasMore src log p = (.ok false, q) ∧ SameCounts p q ∧ q.ended = true := by
  cases h with
  | ended hend => exact ⟨p, hasMore_of_ended hend, ⟨rfl, rfl⟩, hend⟩
  | parked hend hahead =>
      -- the end was seen while a partition was filled, and is reported only now
      rw [hasMore_of_ahead hend hahead]
      exact reportEnd_of_neverFails hlog p
  | fresh _ hend hahead hsrc =>
      rcases hpull : src.pull p.source with ⟨answer, source⟩
      have hfin : answer = .ok .finished := by
        have : (src.pull p.source).1 = .ok .finished := hsrc
        rwa [hpull] at this
      rw [hfin] at hpull
      rw [hasMore_of_pull hend hahead hpull]
      obtain ⟨q, hq, hsame, hqend⟩ := reportEnd_of_neverFails hlog { p with source }
      exact ⟨q, hq, ⟨hsame.size, hsame.partitions⟩, hqend⟩

/-- Looking ahead with an element left holds that element. -/
theorem hasMore_of_remains_cons (log : Sink ω τ) {p : Partitioner σ τ α} {a : α} {rest : List α}
    (h : Remains src p (a :: rest)) :
    ∃ q, hasMore src log p = (.ok true, q) ∧ SameCounts p q ∧ q.ended = false ∧
      q.ahead = some (.element a) ∧ src.Yields rest q.source := by
  cases h with
  | held _ _ hend hahead hsrc =>
      refine ⟨p, ?_, ⟨rfl, rfl⟩, hend, hahead, hsrc⟩
      rw [hasMore_of_ahead hend hahead, inspect, ← hahead]
  | fresh _ hend hahead hsrc =>
      obtain ⟨source, hpull, hrest⟩ := hsrc
      refine ⟨{ p with source, ahead := some (.element a) }, ?_, ⟨rfl, rfl⟩, hend, rfl, hrest⟩
      rw [hasMore_of_pull hend hahead hpull, inspect]

/-- Gathering takes elements up to the room there is, and sees the end when they do not fill it. -/
theorem gather_of_yields (room : Nat) (xs : List α) (s : σ) (hsrc : src.Yields xs s) :
    ∃ s', gather src room s = (.ok (xs.take room, decide (xs.length < room)), s') ∧
      (room ≤ xs.length → src.Yields (xs.drop room) s') := by
  -- one element less to gather, from the state that the pull left
  induction room generalizing xs s with
  | zero => exact ⟨s, by simp [gather], fun _ => hsrc⟩
  | succ room ih =>
      cases xs with
      | nil =>
          rcases hpull : src.pull s with ⟨answer, source⟩
          have hfin : answer = .ok .finished := by
            have : (src.pull s).1 = .ok .finished := hsrc
            rwa [hpull] at this
          exact ⟨source, by simp [gather, hpull, hfin], fun h => by simp at h⟩
      | cons a rest =>
          obtain ⟨source, hpull, hrest⟩ := hsrc
          obtain ⟨s', hgather, hleft⟩ := ih rest source hrest
          refine ⟨s', ?_, fun h => hleft (by simpa using h)⟩
          simp [gather, hpull, hgather]

theorem emit_of_neverFails (hlog : log.NeverFails) (chunk : List α) (p : Partitioner σ τ α) :
    ∃ sink, emit log chunk p = (.ok (some chunk),
      { p with elements := p.elements + chunk.length, sink, partitions := p.partitions + 1 }) := by
  rw [emit_eq, hlog]
  exact ⟨_, rfl⟩

/-- Without any element left, `next` reports the end. -/
theorem next_of_remains_nil (hlog : log.NeverFails) {p : Partitioner σ τ α}
    (h : Remains src p []) :
    ∃ q, next src log p = (.ok none, q) ∧ SameCounts p q ∧ q.ended = true := by
  obtain ⟨q, hq, hsame, hend⟩ := hasMore_of_remains_nil hlog h
  exact ⟨q, by simp [next, hq], hsame, hend⟩

/-- With an element left, `next` hands out as many as the size says and holds the others. -/
theorem next_of_remains_cons (hlog : log.NeverFails) {p : Partitioner σ τ α} {a : α}
    {rest : List α} (h : Remains src p (a :: rest)) :
    ∃ q, next src log p = (.ok (some ((a :: rest).take p.size.toNat)), q) ∧ q.size = p.size ∧
      q.partitions = p.partitions + 1 ∧ Remains src q ((a :: rest).drop p.size.toNat) := by
  obtain ⟨q, hq, hsame, hend, hahead, hsrc⟩ := hasMore_of_remains_cons log h
  -- the element ahead takes one of the places, the others are gathered
  obtain ⟨room, hroom⟩ : ∃ room, p.size.toNat = room + 1 :=
    ⟨_, (Nat.sub_add_cancel p.size.pos).symm⟩
  obtain ⟨source, hgather, hleft⟩ := gather_of_yields room rest q.source hsrc
  set q' : Partitioner σ τ α :=
    { q with
      source, ahead := if decide (rest.length < room) then some .finished else none } with hq'
  obtain ⟨sink, hemit⟩ := emit_of_neverFails hlog (a :: rest.take room) q'
  refine ⟨{ q' with
    elements := q'.elements + (a :: rest.take room).length, sink, partitions := q'.partitions + 1 },
    ?_, hsame.size, congrArg (· + 1) hsame.partitions, ?_⟩
  · have hgather' : gather src (q.size.toNat - 1) q.source
        = (.ok (rest.take room, decide (rest.length < room)), source) := by
      rw [hsame.size, hroom, Nat.add_sub_cancel, hgather]
    rw [next_of_more hq hahead, fill_of_gather hgather', hroom, List.take_succ_cons]
    exact hemit
  · rw [hroom, List.drop_succ_cons]
    -- a partition that is not full has seen the end, and nothing is left then
    by_cases hshort : rest.length < room
    · rw [List.drop_eq_nil_of_le (Nat.le_of_lt hshort)]
      exact .parked hend (by simp [hq', hshort])
    · exact .fresh _ hend (by simp [hq', hshort]) (hleft (Nat.le_of_not_lt hshort))

/-! ## The invariant of a run -/

/-- After `k` partitions of `xs` the rest of `xs` is left, and they are not more than there are. -/
structure Progress (src : Source ω σ α) (size : PartitionSize) (xs : List α) (k : Nat)
    (p : Partitioner σ τ α) : Prop where
  size_eq : p.size = size
  partitions_eq : p.partitions = k
  le_sliceCount : k ≤ size.sliceCount xs.length
  remains : Remains src p (xs.drop (k * size.toNat))

theorem Progress.start {src : Source ω σ α} {xs : List α} {s : σ} (hsrc : src.Yields xs s)
    (size : PartitionSize) (t : τ) : Progress src size xs 0 (start size s t) where
  size_eq := rfl
  partitions_eq := rfl
  le_sliceCount := Nat.zero_le _
  remains := by
    rw [Nat.zero_mul, List.drop_zero]
    exact .start hsrc size t

/-- The answer to a call that closes nothing, when `k` partitions of `xs` were handed out before. -/
inductive Told (size : PartitionSize) (xs : List α) (k : Nat) : Operation → Answer ω α → Prop
  | more (b : Bool) (h : b = true ↔ k < size.sliceCount xs.length) :
      Told size xs k .hasMore (.more b)
  | partition (op : Operation) (hop : op = .next ∨ op = .nextOrFail)
      (h : k < size.sliceCount xs.length) : Told size xs k op (.partition (size.slice xs k))
  | exhausted (h : k = size.sliceCount xs.length) : Told size xs k .next .exhausted
  | failed (h : k = size.sliceCount xs.length) :
      Told size xs k .nextOrFail (.failed (.noPartitionsRemain k))

variable {size : PartitionSize} {xs : List α} {k : Nat} {p : Partitioner σ τ α}

/-- The invariant after a step that hands out nothing. -/
theorem Progress.of_ended (h : Progress src size xs k p) (hnil : xs.drop (k * size.toNat) = [])
    {q : Partitioner σ τ α} (hsame : SameCounts p q) (hend : q.ended = true) :
    Progress src size xs k q :=
  ⟨hsame.size.trans h.size_eq, hsame.partitions.trans h.partitions_eq, h.le_sliceCount,
    hnil ▸ .ended hend⟩

/-- Nothing is left exactly when all slices were handed out. -/
theorem Progress.eq_sliceCount (h : Progress src size xs k p)
    (hnil : xs.drop (k * size.toNat) = []) : k = size.sliceCount xs.length := by
  have hle : xs.length ≤ k * size.toNat := List.drop_eq_nil_iff.mp hnil
  have hnot : ¬ k < size.sliceCount xs.length := by
    rw [size.lt_sliceCount_iff]
    omega
  exact Nat.le_antisymm h.le_sliceCount (Nat.le_of_not_lt hnot)

/-- **One call keeps the invariant** and gets the answer that is due. -/
theorem perform_progress (hlog : log.NeverFails) (op : Operation) (hop : op ≠ .stop)
    (h : Progress src size xs k p) :
    Told size xs k op (perform src log op p).1 ∧
      Progress src size xs (k + ((perform src log op p).1.chunk?.toList).length)
        (perform src log op p).2 := by
  cases hrest : xs.drop (k * size.toNat) with
  | nil =>
      have hk := h.eq_sliceCount hrest
      have hnil : Remains src p [] := hrest ▸ h.remains
      cases op with
      | stop => exact absurd rfl hop
      | hasMore =>
          obtain ⟨q, hq, hsame, hend⟩ := hasMore_of_remains_nil hlog hnil
          rw [perform, hq]
          exact ⟨.more false (by simp [hk]), h.of_ended hrest hsame hend⟩
      | next =>
          obtain ⟨q, hq, hsame, hend⟩ := next_of_remains_nil hlog hnil
          rw [perform, hq]
          exact ⟨.exhausted hk, h.of_ended hrest hsame hend⟩
      | nextOrFail =>
          obtain ⟨q, hq, hsame, hend⟩ := next_of_remains_nil hlog hnil
          have hparts : q.partitions = k := hsame.partitions.trans h.partitions_eq
          rw [perform, nextOrFail, hq]
          refine ⟨?_, h.of_ended hrest hsame hend⟩
          show Told size xs k .nextOrFail (.failed (.noPartitionsRemain q.partitions))
          rw [hparts]
          exact .failed hk
  | cons a rest =>
      have hcons : Remains src p (a :: rest) := hrest ▸ h.remains
      have hlt : k < size.sliceCount xs.length := by
        rw [size.lt_sliceCount_iff]
        by_contra hge
        rw [List.drop_eq_nil_of_le (Nat.le_of_not_lt hge)] at hrest
        cases hrest
      -- what `next` does serves both operations that hand out
      obtain ⟨q, hq, hsize, hparts, hleft⟩ := next_of_remains_cons hlog hcons
      have hchunk : (a :: rest).take p.size.toNat = size.slice xs k := by
        rw [size.slice_eq_take_drop, hrest, h.size_eq]
      have hprogress : Progress src size xs (k + 1) q := by
        refine ⟨hsize.trans h.size_eq, hparts.trans (congrArg (· + 1) h.partitions_eq), hlt, ?_⟩
        rw [Nat.succ_mul, ← List.drop_drop, hrest, ← h.size_eq]
        exact hleft
      rw [hchunk] at hq
      cases op with
      | stop => exact absurd rfl hop
      | hasMore =>
          obtain ⟨r, hr, hsame, hend, hahead, hsrc⟩ := hasMore_of_remains_cons log hcons
          rw [perform, hr]
          exact ⟨.more true (by simp [hlt]), hsame.size.trans h.size_eq,
            hsame.partitions.trans h.partitions_eq, h.le_sliceCount,
            hrest ▸ .held a rest hend hahead hsrc⟩
      | next =>
          rw [perform, hq]
          exact ⟨.partition .next (.inl rfl) hlt, hprogress⟩
      | nextOrFail =>
          rw [perform, nextOrFail, hq]
          exact ⟨.partition .nextOrFail (.inr rfl) hlt, hprogress⟩

theorem Told.chunk?_eq {op : Operation} {answer : Answer ω α} (h : Told size xs k op answer) :
    answer.chunk? = none ∨ answer.chunk? = some (size.slice xs k) := by
  cases h with
  | partition => exact .inr rfl
  | _ => exact .inl rfl

/-- **The run keeps the invariant**, and the partitions handed out are the first slices. -/
theorem run_progress (hlog : log.NeverFails) {s : σ} (hsrc : src.Yields xs s)
    (size : PartitionSize) (t : τ) (ops : List Operation) (hops : Operation.stop ∉ ops) :
    let r := run src log ops (start size s t)
    Progress src size xs (handedOut r.1).length r.2 ∧
      handedOut r.1 = (List.range (handedOut r.1).length).map (size.slice xs) := by
  -- from the end, for the last call meets the invariant that the others keep
  induction ops using List.reverseRecOn with
  | nil => exact ⟨.start hsrc size t, rfl⟩
  | append_singleton ops op ih =>
      obtain ⟨hprogress, hslices⟩ := ih fun h => hops (List.mem_append_left _ h)
      have hop : op ≠ .stop := fun h => hops (by simp [h])
      obtain ⟨htold, hstep⟩ := perform_progress hlog op hop hprogress
      simp only [handedOut_run_snoc, List.length_append]
      refine ⟨by rw [run_snoc]; exact hstep, ?_⟩
      rcases htold.chunk?_eq with hnone | hsome
      · rw [hnone]
        simpa using hslices
      · rw [hsome, Option.toList_some, List.length_singleton, List.range_succ, List.map_append,
          ← hslices]
        rfl

end Steps

/-! ## The answers of a run -/

/-- What a consumer sees of the elements `xs` who never stops early. The partitions handed out are
the slices of `xs` in order. Looking ahead tells whether an element was not handed out yet. While
there is one, `next` and `nextOrFail` hand out the next slice; when there is none, all slices were
handed out, `next` reports the end and `nextOrFail` fails with their number. -/
structure SeesSlices [Objects ω] (size : PartitionSize) (xs : List α) (ops : List Operation)
    (answers : List (Answer ω α)) : Prop where
  chunk : ∀ j chunk, (handedOut answers)[j]? = some chunk →
    chunk = xs.extract (j * size.toNat) (min ((j + 1) * size.toNat) xs.length)
  hasMore : ∀ i, ops[i]? = some .hasMore →
    ∃ b, answers[i]? = some (.more b) ∧ (b = true ↔ (handedOut (answers.take i)).flatten ≠ xs)
  handsOut : ∀ i op, ops[i]? = some op → op = .next ∨ op = .nextOrFail →
    (handedOut (answers.take i)).flatten ≠ xs → ∃ chunk, answers[i]? = some (.partition chunk)
  count : ∀ i, (handedOut (answers.take i)).flatten = xs →
    (handedOut (answers.take i)).length = (xs.length + size.toNat - 1) / size.toNat
  exhausted : ∀ i, ops[i]? = some .next → (handedOut (answers.take i)).flatten = xs →
    answers[i]? = some .exhausted
  failed : ∀ i, ops[i]? = some .nextOrFail → (handedOut (answers.take i)).flatten = xs →
    ∃ (fault : Fault ω) (report : Report ω), answers[i]? = some (.failed fault) ∧
      fault.report? = some report ∧ report.errorClass = .ofPartitions ∧
      report.code = .noSuchElement ∧
      report.context = [(Text.ofString "partitions",
        Value.number (Float.ofNat ((xs.length + size.toNat - 1) / size.toNat)))]

/-- The elements handed out are all of `xs` exactly when no slice is left. -/
theorem flatten_slices_eq_iff (size : PartitionSize) (xs : List α) {k : Nat}
    (hk : k ≤ size.sliceCount xs.length) :
    ((List.range k).map (size.slice xs)).flatten = xs ↔ k = size.sliceCount xs.length := by
  rw [size.flatten_slices, List.take_eq_self_iff, ← Nat.not_lt, ← size.lt_sliceCount_iff]
  omega

/-- **Feeds that end and do not fail are sources of their elements, and over any source of a list
every run without `stop` hands out the slices of that list.** -/
theorem run_hands_out_slices [DecidableEq ω] [Objects ω] :
    (∀ (feed : Feed ω) (xs : List (Value ω)), feed.Supplies xs → Feed.source.Yields xs feed) ∧
    ∀ (src : Source ω σ α) (log : Sink ω τ), log.NeverFails →
      ∀ (xs : List α) (s : σ), src.Yields xs s →
      ∀ (size : PartitionSize) (t : τ) (ops : List Operation), Operation.stop ∉ ops →
        SeesSlices size xs ops (run src log ops (start size s t)).1 := by
  refine ⟨fun feed xs h => h.yields, fun src log hlog xs s hsrc size t ops hops => ?_⟩
  set answers := (run src log ops (start size s t)).1 with hanswers
  -- the state before the call at `i`, and the answer to that call
  have hbefore : ∀ i, Progress src size xs (handedOut (answers.take i)).length
        (run src log (ops.take i) (start size s t)).2 ∧
      handedOut (answers.take i)
        = (List.range (handedOut (answers.take i)).length).map (size.slice xs) := by
    intro i
    rw [hanswers, take_run]
    exact run_progress hlog hsrc size t (ops.take i) fun h => hops (List.mem_of_mem_take h)
  have htold : ∀ i op, ops[i]? = some op → ∃ answer, answers[i]? = some answer ∧
      Told size xs (handedOut (answers.take i)).length op answer := by
    intro i op hi
    have hop : op ≠ .stop := fun h => hops (h ▸ List.mem_of_getElem? hi)
    refine ⟨_, by rw [hanswers, getElem?_run, hi]; rfl, ?_⟩
    exact (perform_progress hlog op hop (hbefore i).1).1
  have hall : ∀ i, (handedOut (answers.take i)).flatten = xs ↔
      (handedOut (answers.take i)).length = size.sliceCount xs.length := by
    intro i
    obtain ⟨hprogress, hslices⟩ := hbefore i
    conv_lhs => rw [hslices]
    exact flatten_slices_eq_iff size xs hprogress.le_sliceCount
  refine ⟨?_, ?_, ?_, fun i h => (hall i).mp h, ?_, ?_⟩
  · intro j chunk hj
    obtain ⟨-, hslices⟩ := run_progress hlog hsrc size t ops hops
    rw [hslices, List.getElem?_map] at hj
    obtain ⟨j', hj', rfl⟩ := Option.map_eq_some_iff.mp hj
    obtain ⟨-, rfl⟩ := List.getElem?_eq_some_iff.mp hj'
    rw [List.getElem_range]
    rfl
  · intro i hi
    obtain ⟨answer, hanswer, h⟩ := htold i _ hi
    have hle := (hbefore i).1.le_sliceCount
    cases h with
    | more b hb => exact ⟨b, hanswer, by rw [hb, Ne, hall i]; omega⟩
    | partition _ hop => rcases hop with h | h <;> cases h
  · intro i op hi hop hne
    obtain ⟨answer, hanswer, h⟩ := htold i op hi
    cases h with
    | more => rcases hop with h | h <;> cases h
    | partition => exact ⟨_, hanswer⟩
    | exhausted h => exact absurd ((hall i).mpr h) hne
    | failed h => exact absurd ((hall i).mpr h) hne
  · intro i hi heq
    obtain ⟨answer, hanswer, h⟩ := htold i _ hi
    cases h with
    | partition _ _ h => exact absurd ((hall i).mp heq) (Nat.ne_of_lt h)
    | exhausted => exact hanswer
  · intro i hi heq
    obtain ⟨answer, hanswer, h⟩ := htold i _ hi
    cases h with
    | partition _ _ h => exact absurd ((hall i).mp heq) (Nat.ne_of_lt h)
    | failed h => exact ⟨_, _, hanswer, rfl, rfl, rfl, by rw [h]; rfl⟩

/-- A script of three elements under partitions of two. Its end carries a fourth value, and it would
go on with answers that cannot be read. -/
theorem run_hands_out_slices_of_three :
    let feed : Feed Item := .fresh (.script
      ⟨Script.handing [(.undefined, .bigint 1), (.bool false, .bigint 2), (.bigint 1, .bigint 3)]
        ++ [.reply (.result (.bool true) (.bigint 4))],
        .reply .unreadable, .none⟩)
    let xs : List (Value Item) := [.bigint 1, .bigint 2, .bigint 3]
    let size : PartitionSize := ⟨2, by decide⟩
    let ops := [.next, .hasMore, .hasMore, .nextOrFail, .next, .nextOrFail, .hasMore]
    let answers := (run Feed.source Sink.discard ops (start size feed ())).1
    feed.Supplies xs ∧ (Sink.discard : Sink Item Unit).NeverFails ∧ Feed.source.Yields xs feed ∧
      Operation.stop ∉ ops ∧ @SeesSlices Item (Value Item) Catalog.featureless size xs ops answers ∧
      handedOut answers = [[.bigint 1, .bigint 2], [.bigint 3]] := by
  intro feed xs size ops answers
  let _ : Objects Item := Catalog.featureless
  have hfeed : feed.Supplies xs := .script _ _ _ _ (.bigint 4) (by simp) rfl
  have hsrc : Feed.source.Yields xs feed :=
    (@run_hands_out_slices Item (Feed Item) Unit (Value Item) _ _).1 feed xs hfeed
  have hops : Operation.stop ∉ ops := by decide
  exact ⟨hfeed, Sink.discard_neverFails, hsrc, hops, run_hands_out_slices.2 Feed.source Sink.discard
    Sink.discard_neverFails xs feed hsrc size () ops hops, rfl⟩

end Partitioner

end Arrange
