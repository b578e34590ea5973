import Arrange.Catalog
import Arrange.Proofs.Partition.Demand
import Arrange.Proofs.Partition.Ending
import Arrange.Proofs.Partition.Stream

/-!
# Partitions of partitions

A partitioner may be the source of another one. The outer one then hands out lists of inner
partitions, and it answers every call as one partitioner of the product of both sizes does, but for
the brackets around the inner partitions (`run_map_eq`). It takes an inner partition only to hand it
out, or to look ahead, and when it is stopped the inner one is stopped too. Main statement:
`run_nested_multiplies_sizes`.
-/

set_option autoImplicit false

namespace Arrange

variable {ω σ σ' τ τ' τ'' α β : Type}

namespace Partitioner

open SourceCall

/-! ## Answers of partitioners whose slices correspond -/

/-- The answer with another partition in it. -/
def Answer.map (f : List β → List α) : Answer ω β → Answer ω α
  | .partition chunk => .partition (f chunk)
  | .more available => .more available
  | .exhausted => .exhausted
  | .stopped => .stopped
  | .failed fault => .failed fault

theorem Told.unique {size : PartitionSize} {xs : List α} {k : Nat} {op : Operation}
    {a b : Answer ω α} (ha : Told size xs k op a) (hb : Told size xs k op b) : a = b := by
  cases ha with
  | more available h =>
      cases hb with
      | more available' h' => rw [Bool.eq_iff_iff.mpr (h.trans h'.symm)]
      | partition _ hop => rcases hop with hop | hop <;> cases hop
  | partition _ hop h =>
      cases hb with
      | more => rcases hop with hop | hop <;> cases hop
      | partition => rfl
      | exhausted hk => exact absurd h (by omega)
      | failed hk => exact absurd h (by omega)
  | exhausted hk =>
      cases hb with
      | partition _ _ h => exact absurd h (by omega)
      | exhausted => rfl
  | failed hk =>
      cases hb with
      | partition _ _ h => exact absurd h (by omega)
      | failed => rfl

section Correspond

variable {l n : PartitionSize} {xs : List α} {ys : List β} {f : List β → List α}

theorem Told.map (hslices : (n.slices ys).map f = l.slices xs) {k : Nat} {op : Operation}
    {answer : Answer ω β} (h : Told n ys k op answer) : Told l xs k op (answer.map f) := by
  have hcount : n.sliceCount ys.length = l.sliceCount xs.length := by
    simpa using congrArg List.length hslices
  cases h with
  | more available h => exact .more available (by rw [h, hcount])
  | partition _ hop h =>
      have hslice : some (f (n.slice ys k)) = some (l.slice xs k) := by
        rw [← l.getElem?_slices xs (hcount ▸ h), ← hslices, List.getElem?_map,
          n.getElem?_slices ys h]
        rfl
      rw [Answer.map, Option.some.inj hslice]
      exact .partition op hop (hcount ▸ h)
  | exhausted hk => exact .exhausted (hk.trans hcount)
  | failed hk => exact .failed (hk.trans hcount)

theorem length_chunk?_map (answer : Answer ω β) :
    ((answer.map f).chunk?.toList).length = (answer.chunk?.toList).length := by
  cases answer <;> rfl

/-- Where the slices of one list correspond to those of another, so do the answers. -/
theorem run_map_eq {src : Source ω σ β} {src' : Source ω σ' α} {log : Sink ω τ} {log' : Sink ω τ'}
    (hlog : log.NeverFails) (hlog' : log'.NeverFails) (hslices : (n.slices ys).map f = l.slices xs)
    (ops : List Operation) (hops : Operation.stop ∉ ops) {k : Nat} {p : Partitioner σ τ β}
    {p' : Partitioner σ' τ' α} (h : Progress src n ys k p) (h' : Progress src' l xs k p') :
    (run src log ops p).1.map (Answer.map f) = (run src' log' ops p').1 := by
  induction ops generalizing k p p' with
  | nil => rfl
  | cons op ops ih =>
      have hop : op ≠ .stop := fun h => hops (by simp [h])
      obtain ⟨htold, hnext⟩ := perform_progress hlog op hop h
      obtain ⟨htold', hnext'⟩ := perform_progress hlog' op hop h'
      have hanswer : (perform src log op p).1.map f = (perform src' log' op p').1 :=
        (htold.map hslices).unique htold'
      -- both have handed out as many slices
      rw [← hanswer, length_chunk?_map] at hnext'
      have hrest := ih (fun h => hops (List.mem_cons_of_mem op h)) hnext hnext'
      rw [run, run, List.map_cons, hanswer, hrest]

end Correspond

/-! ## What is taken from the inner partitioner -/

section Taken

variable {src : Source ω σ α} {log : Sink ω τ}

/-- The partitions that an inner partitioner counts are those that the outer one has got, and it has
a list left. -/
structure CountsProduced (src : Source ω σ α) (r : Recorded ω (Partitioner σ τ α) β) : Prop where
  remains : ∃ rest, Remains src r.state rest
  partitions_eq : r.state.partitions = (produced r.calls).length

theorem CountsProduced.pull (wrap : List α → β) (hlog : log.NeverFails)
    {r : Recorded ω (Partitioner σ τ α) β} (h : CountsProduced src r) :
    CountsProduced src ((asSource src log wrap).recorded.pull r).2 := by
  obtain ⟨rest, hrest⟩ := h.remains
  cases rest with
  | nil =>
      obtain ⟨q, hq, hsame, hleft⟩ := pull_of_remains_nil wrap hlog hrest
      rw [Source.recorded_pull hq]
      refine ⟨⟨[], hleft⟩, ?_⟩
      rw [produced_append, produced_of_no_element rfl, List.append_nil, hsame.partitions,
        h.partitions_eq]
  | cons a rest =>
      obtain ⟨q, hq, -, hpartitions, hleft⟩ := pull_of_remains_cons wrap hlog hrest
      rw [Source.recorded_pull hq]
      refine ⟨⟨_, hleft⟩, ?_⟩
      rw [produced_append, List.length_append, hpartitions, h.partitions_eq]
      rfl

theorem CountsProduced.close (wrap : List α → β) {r : Recorded ω (Partitioner σ τ α) β}
    (h : CountsProduced src r) :
    CountsProduced src ((asSource src log wrap).recorded.close r).2 := by
  have hstopped : (stop src r.state).2.ended = true ∧
      (stop src r.state).2.partitions = r.state.partitions := by
    rw [stop]
    split
    · exact ⟨‹_›, rfl⟩
    · exact ⟨rfl, rfl⟩
  refine ⟨⟨[], .ended hstopped.1⟩, ?_⟩
  -- closing produces nothing
  have hcalls : produced ((asSource src log wrap).recorded.close r).2.calls = produced r.calls := by
    show produced (r.calls ++ [.close _]) = _
    rw [produced_append, produced_of_no_element rfl, List.append_nil]
  rw [hcalls, ← h.partitions_eq]
  exact hstopped.2

end Taken

/-- How many partitions the last answer has announced: one, if it says that there is another. -/
def announced (answers : List (Answer ω α)) : Nat :=
  match answers.getLast? with
  | some (.more true) => 1
  | _ => 0

@[simp] theorem announced_snoc (answers : List (Answer ω α)) (answer : Answer ω α) :
    announced (answers ++ [answer]) = announced [answer] := by
  simp [announced]

theorem announced_answerOf {γ : Type} {told : γ → Answer ω α} (htold : ∀ c, told c ≠ .more true)
    (outcome : Except (Fault ω) γ) : announced [answerOf told outcome] = 0 := by
  cases outcome with
  | error fault => rfl
  | ok c =>
      rw [answerOf, announced, List.getLast?_singleton]
      split
      · exact absurd (Option.some.inj ‹_›) (htold c)
      · rfl

section Held

variable {src : Source ω σ α}

/-- An element is held exactly when the call has announced a partition. -/
theorem length_held_perform (log : Sink ω τ) {op : Operation} (hop : op ≠ .stop)
    {p : Partitioner (Recorded ω σ α) τ α} (h : Standing src p) :
    (perform src.recorded log op p).2.held.length
      = announced [(perform src.recorded log op p).1] := by
  have hnone (hother : op ≠ .hasMore) : (perform src.recorded log op p).2.held = [] := by
    by_contra hne
    exact hother ((perform_standing log op hop h).2.held hne).1
  cases op with
  | stop => exact absurd rfl hop
  | hasMore =>
      obtain ⟨outcome, q, hmore, -, hlooked, -, -⟩ := hasMore_standing log h
      rw [perform, hmore]
      cases hlooked with
      | ready a _ hahead => simp [held, hahead, announced, answerOf]
      | atEnd logged _ _ hempty =>
          rw [answerOf_map, announced_answerOf (fun _ => by simp), hempty, List.length_nil]
  | next =>
      rw [hnone (by decide), perform, List.length_nil]
      exact (announced_answerOf (fun c => by cases c <;> simp [nextAnswer]) _).symm
  | nextOrFail =>
      rw [hnone (by decide), perform, List.length_nil]
      exact (announced_answerOf (fun _ => by simp) _).symm

theorem length_held_run {s : σ} (hsrc : src.NeverFails s) (log : Sink ω τ) (size : PartitionSize)
    (t : τ) (ops : List Operation) (hops : Operation.stop ∉ ops) :
    (recordAfter src log ops (start size s t)).held.length
      = announced (run src log ops (start size s t)).1 := by
  cases ops using List.reverseRecOn with
  | nil => rfl
  | append_singleton ops op =>
      have hbefore : Operation.stop ∉ ops := fun h => hops (List.mem_append_left [op] h)
      have hop : op ≠ .stop := fun h => hops (by simp [h])
      obtain ⟨hstanding, -, -⟩ := run_standing hsrc log size t ops hbefore
      rw [recordAfter_snoc, ← (run_recorded src log (ops ++ [op]) _).1, run_snoc, announced_snoc]
      exact length_held_perform log hop hstanding

end Held

/-! ## Stopping both partitioners -/

section Stopped

variable {log : Sink ω τ}

/-- The state of a partitioner over another one, with records of what was asked of the inner one and
of the source below it. -/
abbrev Nested (ω σ τ τ' α β : Type) :=
  Partitioner (Recorded ω (Partitioner (Recorded ω σ α) τ α) β) τ' β

/-- The state after a run on partitions of `n` partitions of `m` elements. -/
def nestedAfter (src : Source ω σ α) (log : Sink ω τ) (wrap : List α → β) (log' : Sink ω τ')
    (m n : PartitionSize) (s : σ) (t : τ) (t' : τ') (ops : List Operation) :
    Nested ω σ τ τ' α β :=
  recordAfter (asSource src.recorded log wrap) log' ops (start n (start m (.fresh s) t) t')

/-- Without its records it is the state of the run itself. -/
theorem nestedAfter_mapSource (src : Source ω σ α) (log : Sink ω τ) (wrap : List α → β)
    (log' : Sink ω τ') (m n : PartitionSize) (s : σ) (t : τ) (t' : τ') (ops : List Operation) :
    (nestedAfter src log wrap log' m n s t t' ops).mapSource
        (fun r => r.state.mapSource Recorded.state)
      = (run (asSource src log wrap) log' ops (start n (start m s t) t')).2 := by
  have hbelow := carries_asSource src.carries_recorded log wrap
  have hrun := run_mapSource hbelow log' ops (start n (start m (.fresh s) t) t')
  have houter := (run_recorded (asSource src.recorded log wrap) log' ops
    (start n (start m (.fresh s) t) t')).2
  calc (nestedAfter src log wrap log' m n s t t' ops).mapSource
        (fun r => r.state.mapSource Recorded.state)
      = ((nestedAfter src log wrap log' m n s t t' ops).mapSource Recorded.state).mapSource
          (mapSource Recorded.state) := rfl
    _ = (run (asSource src.recorded log wrap) log' ops
          (start n (start m (.fresh s) t) t')).2.mapSource (mapSource Recorded.state) := by
        rw [nestedAfter, houter]
    _ = (run (asSource src log wrap) log' ops (start n (start m s t) t')).2 :=
        (congrArg Prod.snd hrun).symm

/-- An inner partitioner is at its end exactly when the outer one was told so, or has closed it. -/
structure EndsAsTold (r : Recorded ω (Partitioner (Recorded ω σ α) τ α) β) : Prop where
  noted : Noted r.state
  ended_iff : r.state.ended = true ↔ endTold r.calls = true ∨ closings r.calls ≠ 0

theorem tellsEnd_pulledChunk_iff (wrap : List α → β) {asked : List (SourceCall ω α)}
    (outcome : Except (Fault ω) (Option (List α))) :
    tellsEnd (.pull (outcome.map (pulledChunk wrap))) = true ↔
      ReportsEnd asked .next (answerOf nextAnswer outcome) := by
  rcases outcome with _ | _ | _ <;>
    simp [Except.map, pulledChunk, tellsEnd, answerOf, nextAnswer, ReportsEnd]

theorem EndsAsTold.pull (src : Source ω σ α) (wrap : List α → β) (hlog : log.NeverFails)
    {r : Recorded ω (Partitioner (Recorded ω σ α) τ α) β} (h : EndsAsTold r) :
    EndsAsTold ((asSource src.recorded log wrap).recorded.pull r).2 := by
  obtain ⟨outcome, asked, q, hnext, hstep⟩ := next_step src log r.state
  rw [Source.recorded_pull (pull_asSource wrap hnext)]
  refine ⟨hstep.noted h.noted, ?_⟩
  have htells : endTold [(.pull (outcome.map (pulledChunk wrap)) : SourceCall ω β)] = true ↔
      ReportsEnd asked .next (answerOf nextAnswer outcome) := by
    rw [← tellsEnd_pulledChunk_iff wrap]
    simp [endTold]
  rw [hstep.ended_iff hlog, h.ended_iff, endTold_append, closings_append, closings_pull,
    Nat.add_zero, Bool.or_eq_true, htells]
  simp only [reduceCtorEq, false_or]
  exact or_right_comm

theorem EndsAsTold.close (src : Source ω σ α) (wrap : List α → β) (hlog : log.NeverFails)
    {r : Recorded ω (Partitioner (Recorded ω σ α) τ α) β} (h : EndsAsTold r) :
    EndsAsTold ((asSource src.recorded log wrap).recorded.close r).2 := by
  obtain ⟨asked, hstep⟩ := perform_step src log .stop r.state
  refine ⟨hstep.noted h.noted, iff_of_true ?_ (.inr ?_)⟩
  · exact (hstep.ended_iff hlog).mpr (.inr (.inl rfl))
  · show closings (r.calls ++ [.close _]) ≠ 0
    rw [closings_append, closings_close]
    omega

/-- While the outer partitioner was neither stopped nor told the end, nothing is closed. -/
theorem open_of_not_told (src : Source ω σ α) (wrap : List α → β) (hlog : log.NeverFails)
    (log' : Sink ω τ') (m n : PartitionSize) (s : σ) (t : τ) (t' : τ') {ops : List Operation}
    (hops : Operation.stop ∉ ops) {q : Nested ω σ τ τ' α β}
    (hq : q = nestedAfter src log wrap log' m n s t t' ops)
    (hopen : endTold q.source.calls = false) :
    q.ended = false ∧ q.source.state.ended = false ∧
      closings q.source.state.source.calls = 0 := by
  rw [nestedAfter] at hq
  have hfresh : EndsAsTold
      (Recorded.fresh (start m (.fresh s) t) : Recorded ω (Partitioner (Recorded ω σ α) τ α) β) :=
    ⟨noted_recordAfter src log [] m s t, by simp [Recorded.fresh, start, endTold, closings]⟩
  have hinner : EndsAsTold q.source := by
    rw [hq]
    exact run_keeps_source (J := EndsAsTold) (fun _ h => h.pull src wrap hlog)
      (fun _ h => h.close src wrap hlog) log' ops hfresh
  have houter : q.ended = false := by
    rw [← Bool.not_eq_true]
    intro hend
    rw [hq] at hend hopen
    rw [told_of_ended _ log' n _ t' ops hops hend] at hopen
    cases hopen
  have hclosings : closings q.source.calls = 0 := by
    have hnoted := noted_recordAfter (asSource src.recorded log wrap) log' ops n
      (start m (.fresh s) t) t'
    rw [← hq] at hnoted
    exact hnoted.unclosed houter
  have hended : q.source.state.ended = false := by
    rw [← Bool.not_eq_true, hinner.ended_iff, hopen, hclosings]
    simp
  exact ⟨houter, hended, hinner.noted.unclosed hended⟩

/-- Stopped while both are open, the outer partitioner stops the inner one, which closes the
source. -/
theorem perform_stop_nested (src : Source ω σ α) (log : Sink ω τ) (wrap : List α → β)
    (log' : Sink ω τ') {q : Nested ω σ τ τ' α β} (houter : q.ended = false)
    (hinner : q.source.state.ended = false) :
    let r := (perform (asSource src.recorded log wrap).recorded log' .stop q).2
    r.ended = true ∧ r.source.state.ended = true ∧
      closings r.source.state.source.calls = closings q.source.state.source.calls + 1 := by
  have hstop : stop src.recorded q.source.state = _ := stop_of_open hinner
  rw [perform, stop_of_open houter]
  refine ⟨rfl, ?_⟩
  show (stop src.recorded q.source.state).2.ended = true ∧
    closings (stop src.recorded q.source.state).2.source.calls = _
  rw [hstop]
  refine ⟨rfl, ?_⟩
  show closings (q.source.state.source.calls ++ [.close _]) = _
  rw [closings_append, closings_close]

/-- After `stop`, called while both are open, nothing changes any more. -/
theorem nestedAfter_stop (src : Source ω σ α) (log : Sink ω τ) (wrap : List α → β)
    (log' : Sink ω τ') (m n : PartitionSize) (s : σ) (t : τ) (t' : τ') {ops : List Operation}
    {q : Nested ω σ τ τ' α β} (hq : q = nestedAfter src log wrap log' m n s t t' ops)
    (houter : q.ended = false) (hinner : q.source.state.ended = false) (more : List Operation) :
    let r := nestedAfter src log wrap log' m n s t t' (ops ++ .stop :: more)
    r.source.state.ended = true ∧
      closings r.source.state.source.calls = closings q.source.state.source.calls + 1 := by
  obtain ⟨hend, hstopped⟩ := perform_stop_nested src log wrap log' houter hinner
  have hstays : nestedAfter src log wrap log' m n s t t' (ops ++ .stop :: more)
      = (perform (asSource src.recorded log wrap).recorded log' .stop q).2 := by
    rw [nestedAfter, recordAfter, run_append]
    rw [nestedAfter, recordAfter] at hq
    rw [← hq, run]
    exact run_of_ended _ log' more hend
  rw [hstays]
  exact hstopped

end Stopped

/-! ## One partitioner of the product -/

/-- How partitions of partitions, which `p` makes, compare with those that `single` makes of the
elements themselves. `count` is the number of either, and `unwrap` takes an inner partition out of
its wrapping. -/
structure FlattensTo (src : Source ω σ α) (log : Sink ω τ) (wrap : List α → β)
    (unwrap : β → List α) (log' : Sink ω τ') (log'' : Sink ω τ'') (count : Nat)
    (p : Partitioner (Partitioner σ τ α) τ' β) (single : Partitioner σ τ'' α) : Prop where
  /-- Consumers that take all partitions are handed the same ones, but for the inner level. -/
  collected : ∀ limit, count < limit → ∃ chunks q single',
    chunks.length = count ∧
    collect (asSource src log wrap) log' limit p = (chunks, .exhausted, q) ∧
    collect src log'' limit single = (chunks.map (List.flatMap unwrap), .exhausted, single')
  /-- In every run so are all answers. -/
  answers : ∀ ops, Operation.stop ∉ ops →
    (run (asSource src log wrap) log' ops p).1.map (Answer.map (List.flatMap unwrap))
      = (run src log'' ops single).1
  /-- The inner partitioner has handed out what the outer one has, and one partition more when the
  last call was told that there is another. -/
  taken : ∀ ops, Operation.stop ∉ ops →
    (run (asSource src log wrap) log' ops p).2.source.partitions
      = (handedOut (run (asSource src log wrap) log' ops p).1).flatten.length
        + announced (run (asSource src log wrap) log' ops p).1

section Flatten

variable {src : Source ω σ α} {log : Sink ω τ} {wrap : List α → β} {unwrap : β → List α}
  {log' : Sink ω τ'}

theorem map_slices_wrapped (hunwrap : ∀ chunk, unwrap (wrap chunk) = chunk) (m n : PartitionSize)
    (xs : List α) :
    (n.slices ((m.slices xs).map wrap)).map (List.flatMap unwrap) = (m * n).slices xs := by
  have hflatten (chunks : List (List α)) :
      List.flatMap unwrap (chunks.map wrap) = chunks.flatten := by
    rw [List.flatMap_map]
    simp only [hunwrap, List.flatMap_id']
  calc (n.slices ((m.slices xs).map wrap)).map (List.flatMap unwrap)
      = (n.slices (m.slices xs)).map List.flatten := by
        rw [PartitionSize.slices_map, List.map_map]
        exact List.map_congr_left fun chunks _ => hflatten chunks
    _ = (m * n).slices xs := m.map_flatten_slices n xs

/-- As many inner partitions were handed out as the outer partitioner has used or holds. -/
theorem partitions_nested (hlog : log.NeverFails) (hlog' : log'.NeverFails) (wrap : List α → β)
    (m n : PartitionSize) {xs : List α} {s : σ} (hsrc : src.Yields xs s) (t : τ) (t' : τ')
    (ops : List Operation) (hops : Operation.stop ∉ ops) :
    let r := run (asSource src log wrap) log' ops (start n (start m s t) t')
    r.2.source.partitions = (handedOut r.1).flatten.length + announced r.1 := by
  intro r
  have hremains : Remains src (start m s t) xs := .start hsrc m t
  have hnever := neverFails_asSource wrap hlog hremains
  set q := recordAfter (asSource src log wrap) log' ops (start n (start m s t) t') with hq
  have hcounts : CountsProduced src q.source :=
    run_keeps_source (J := CountsProduced src) (fun _ h => h.pull wrap hlog)
      (fun _ h => h.close wrap) log' ops
      (⟨⟨xs, hremains⟩, rfl⟩ : CountsProduced src (Recorded.fresh (start m s t)))
  obtain ⟨hstanding, -, helements⟩ := run_standing hnever log' n t' ops hops
  have hstate : q.source.state = r.2.source :=
    congrArg Partitioner.source (run_recorded (asSource src log wrap) log' ops _).2
  calc r.2.source.partitions
      = (produced q.source.calls).length := by rw [← hstate, hcounts.partitions_eq]
    _ = q.elements + q.held.length := hstanding.length_produced
    _ = (handedOut r.1).flatten.length + announced r.1 := by
        rw [helements hlog', length_held_run hnever log' n t' ops hops]

theorem flattensTo_product (hunwrap : ∀ chunk, unwrap (wrap chunk) = chunk) (hlog : log.NeverFails)
    (hlog' : log'.NeverFails) {log'' : Sink ω τ''} (hlog'' : log''.NeverFails)
    (m n : PartitionSize) {xs : List α} {s : σ} (hsrc : src.Yields xs s) (t : τ) (t' : τ')
    (t'' : τ'') :
    FlattensTo src log wrap unwrap log' log'' ((m * n).sliceCount xs.length)
      (start n (start m s t) t') (start (m * n) s t'') := by
  have hslices := map_slices_wrapped hunwrap m n xs
  have hyields : (asSource src log wrap).Yields ((m.slices xs).map wrap) (start m s t) :=
    yields_asSource wrap hlog (.start hsrc m t)
  constructor
  · intro limit hlimit
    have hlength : (n.slices ((m.slices xs).map wrap)).length = (m * n).sliceCount xs.length := by
      simpa using congrArg List.length hslices
    obtain ⟨q, hq⟩ := collect_start hlog' hyields n t' (by rwa [← n.length_slices, hlength])
    obtain ⟨q', hq'⟩ := collect_start hlog'' hsrc (m * n) t'' hlimit
    exact ⟨_, q, q', hlength, hq, hslices ▸ hq'⟩
  · intro ops hops
    exact run_map_eq hlog' hlog'' hslices ops hops (.start hyields n t') (.start hsrc (m * n) t'')
  · intro ops hops
    exact partitions_nested hlog hlog' wrap m n hsrc t t' ops hops

end Flatten

/-- **Partitions of `n` partitions of `m` elements are the partitions of `m * n` elements, but for
the inner level, and no inner partition is taken early.** Whatever the source is, to stop the outer
partitioner stops the inner one and closes the source once, unless the inner one has told its end
before. -/
theorem run_nested_multiplies_sizes (src : Source ω σ α) {log : Sink ω τ} (hlog : log.NeverFails)
    (wrap : List α → β) (m n : PartitionSize) :
    (∀ (unwrap : β → List α), (∀ chunk, unwrap (wrap chunk) = chunk) →
      ∀ (log' : Sink ω τ') (log'' : Sink ω τ''), log'.NeverFails → log''.NeverFails →
      ∀ (xs : List α) (s : σ), src.Yields xs s → ∀ (t : τ) (t' : τ') (t'' : τ''),
        FlattensTo src log wrap unwrap log' log'' ((m * n).sliceCount xs.length)
          (start n (start m s t) t') (start (m * n) s t'')) ∧
    ∀ (log' : Sink ω τ') (s : σ) (t : τ) (t' : τ'),
      let after := nestedAfter src log wrap log' m n s t t'
      (∀ ops, (after ops).mapSource (fun r => r.state.mapSource Recorded.state)
        = (run (asSource src log wrap) log' ops (start n (start m s t) t')).2) ∧
      ∀ ops, Operation.stop ∉ ops → endTold (after ops).source.calls = false →
        closings (after ops).source.state.source.calls = 0 ∧
        ∀ more, (after (ops ++ .stop :: more)).source.state.ended = true ∧
          closings (after (ops ++ .stop :: more)).source.state.source.calls = 1 := by
  refine ⟨?_, fun log' s t t' => ⟨nestedAfter_mapSource src log wrap log' m n s t t', ?_⟩⟩
  · intro unwrap hunwrap log' log'' hlog' hlog'' xs s hsrc t t' t''
    exact flattensTo_product hunwrap hlog hlog' hlog'' m n hsrc t t' t''
  · intro ops hops hopen
    obtain ⟨houter, hinner, hunclosed⟩ :=
      open_of_not_told src wrap hlog log' m n s t t' hops rfl hopen
    refine ⟨hunclosed, fun more => ?_⟩
    obtain ⟨hended, hclosed⟩ :=
      nestedAfter_stop src log wrap log' m n s t t' rfl houter hinner more
    exact ⟨hended, hclosed.trans (congrArg (· + 1) hunclosed)⟩

/-- A script of five elements that can be closed, in partitions of two partitions of two. After the
first one, looking ahead takes the partition that is the fifth element and comes to the end of the
script, and then `stop` closes the script. -/
theorem run_nested_multiplies_sizes_for_five_elements :
    let feed : Feed Item := .fresh (.script ⟨Script.handing [(.bool false, .bigint 1),
      (.bool false, .bigint 2), (.bool false, .bigint 3), (.bool false, .bigint 4),
      (.bool false, .bigint 5)] ++ [.reply .ended], .reply .unreadable, .succeeds⟩)
    let xs : List (Value Item) := [.bigint 1, .bigint 2, .bigint 3, .bigint 4, .bigint 5]
    let two : PartitionSize := ⟨2, by decide⟩
    let unwrap : Value Item → List (Value Item)
      | .array _ elements => elements
      | _ => []
    let drop : Sink Item Unit := Sink.discard
    let p : Partitioner (Partitioner (Feed Item) Unit (Value Item)) Unit (Value Item) :=
      start two (start two feed ()) ()
    let after := nestedAfter Feed.source drop (Value.array 0) drop two two feed () ()
    drop.NeverFails ∧ Feed.source.Yields xs feed ∧
      FlattensTo Feed.source drop (Value.array 0) unwrap drop drop 2 p (start (two * two) feed ()) ∧
      handedOut (run (asSource Feed.source drop (Value.array 0)) drop [.next, .next] p).1
        = [[.array 0 [.bigint 1, .bigint 2], .array 0 [.bigint 3, .bigint 4]],
          [.array 0 [.bigint 5]]] ∧
      Operation.stop ∉ [Operation.next, .hasMore] ∧
      endTold (after [.next, .hasMore]).source.calls = false ∧
      closings (after [.next, .hasMore, .stop, .stop]).source.state.source.calls = 1 ∧
      (after [.next, .hasMore, .stop, .stop]).source.state.source.state.closings = 1 := by
  intro feed xs two unwrap drop p after
  have hfeed : feed.Supplies xs := .script _ _ _ _ .undefined (by simp) rfl
  have hops : Operation.stop ∉ [Operation.next, .hasMore] := by decide
  obtain ⟨hflattens, hstops⟩ := run_nested_multiplies_sizes Feed.source
    (Sink.discard_neverFails : drop.NeverFails) (Value.array 0) two two
  have hboth := hflattens unwrap (fun _ => rfl) drop drop Sink.discard_neverFails
    Sink.discard_neverFails xs feed hfeed.yields () () ()
  have hcount : (two * two).sliceCount xs.length = 2 := by
    show (5 + 4 - 1) / 4 = 2
    rfl
  rw [hcount] at hboth
  have hopen : endTold (after [.next, .hasMore]).source.calls = false := rfl
  obtain ⟨-, hclosed⟩ := (hstops drop feed () ()).2 [.next, .hasMore] hops hopen
  exact ⟨Sink.discard_neverFails, hfeed.yields, hboth, rfl, hops, hopen, (hclosed [.stop]).2, rfl⟩

end Partitioner

end Arrange
