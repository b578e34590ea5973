import Arrange.Proofs.Partition.Run

/-!
# The record of a source

`src.recorded` is the source `src` with a record of the calls made to it. A run of a partitioner
over it gives the same answers and the same states (`run_recorded`), so that the record tells what
the run asked of `src` itself: `recordAfter` is the state after a run with that record.

`gather_recorded` says what one partition reads. Gathering is the only step that may pull more than
once.
-/

set_option autoImplicit false

namespace Arrange

variable {ω σ σ' τ α : Type}

/-! ## Calls to a source -/

/-- A call to a source, with its outcome. -/
inductive SourceCall (ω α : Type) where
  | pull (outcome : Except (Fault ω) (Pulled α))
  | close (outcome : Except (Fault ω) Unit)

namespace SourceCall

/-- The element that the source handed over. -/
def element? : SourceCall ω α → Option α
  | .pull (.ok (.element a)) => some a
  | _ => none

def isPull : SourceCall ω α → Bool
  | .pull _ => true
  | .close _ => false

def isClose : SourceCall ω α → Bool
  | .pull _ => false
  | .close _ => true

/-- Whether the source told its end. -/
def tellsEnd : SourceCall ω α → Bool
  | .pull (.ok .finished) => true
  | _ => false

/-- The elements that the source produced. -/
def produced (calls : List (SourceCall ω α)) : List α := calls.filterMap element?

/-- How often the source was pulled. -/
def pulls (calls : List (SourceCall ω α)) : Nat := calls.countP isPull

/-- How often the source was closed. -/
def closings (calls : List (SourceCall ω α)) : Nat := calls.countP isClose

/-- Whether the source has told its end. -/
def endTold (calls : List (SourceCall ω α)) : Bool := calls.any tellsEnd

/-- Pulls that hand over the elements of a list. -/
def handing (xs : List α) : List (SourceCall ω α) := xs.map fun a => .pull (.ok (.element a))

/-- The pull that tells the end, if it was told. -/
def ending (told : Bool) : List (SourceCall ω α) := if told then [.pull (.ok .finished)] else []

@[simp] theorem produced_append (before after : List (SourceCall ω α)) :
    produced (before ++ after) = produced before ++ produced after := List.filterMap_append

@[simp] theorem produced_handing (xs : List α) :
    produced (handing xs : List (SourceCall ω α)) = xs := by
  induction xs with
  | nil => rfl
  | cons a xs ih => exact congrArg (a :: ·) ih

theorem produced_of_no_element {call : SourceCall ω α} (h : call.element? = none) :
    produced [call] = [] := by
  rw [produced, List.filterMap_cons_none h, List.filterMap_nil]

@[simp] theorem pulls_append (before after : List (SourceCall ω α)) :
    pulls (before ++ after) = pulls before + pulls after := List.countP_append

@[simp] theorem pulls_pull (outcome : Except (Fault ω) (Pulled α)) :
    pulls [.pull outcome] = 1 := rfl

@[simp] theorem pulls_handing (xs : List α) :
    pulls (handing xs : List (SourceCall ω α)) = xs.length := by
  rw [handing, pulls, List.countP_map]
  exact congrFun List.countP_true xs

@[simp] theorem closings_append (before after : List (SourceCall ω α)) :
    closings (before ++ after) = closings before + closings after := List.countP_append

@[simp] theorem closings_pull (outcome : Except (Fault ω) (Pulled α)) :
    closings [.pull outcome] = 0 := rfl

@[simp] theorem closings_close (outcome : Except (Fault ω) Unit) :
    closings [(.close outcome : SourceCall ω α)] = 1 := rfl

@[simp] theorem closings_handing (xs : List α) :
    closings (handing xs : List (SourceCall ω α)) = 0 := by
  rw [handing, closings, List.countP_map]
  exact congrFun List.countP_false xs

@[simp] theorem endTold_append (before after : List (SourceCall ω α)) :
    endTold (before ++ after) = (endTold before || endTold after) := List.any_append

@[simp] theorem endTold_finished :
    endTold [(.pull (.ok .finished) : SourceCall ω α)] = true := rfl

@[simp] theorem endTold_handing (xs : List α) :
    endTold (handing xs : List (SourceCall ω α)) = false := by
  simp [endTold, handing, tellsEnd]

@[simp] theorem produced_ending (told : Bool) :
    produced (ending told : List (SourceCall ω α)) = [] := by
  cases told <;> rfl

@[simp] theorem closings_ending (told : Bool) :
    closings (ending told : List (SourceCall ω α)) = 0 := by
  cases told <;> rfl

@[simp] theorem endTold_ending (told : Bool) :
    endTold (ending told : List (SourceCall ω α)) = told := by
  cases told <;> rfl

theorem handing_append (xs ys : List α) :
    (handing (xs ++ ys) : List (SourceCall ω α)) = handing xs ++ handing ys := List.map_append

end SourceCall

/-! ## The answers of a source -/

/-- Whether a pull in this state gives an element or the end. -/
def Source.AnswersAt (src : Source ω σ α) (s : σ) : Prop :=
  (∃ a, (src.pull s).1 = .ok (.element a)) ∨ (src.pull s).1 = .ok .finished

theorem Source.no_element_of_not_answersAt {src : Source ω σ α} {s : σ} (h : ¬ src.AnswersAt s) :
    SourceCall.element? (.pull (src.pull s).1) = none := by
  rcases hpull : (src.pull s).1 with fault | ⟨a⟩ | _ | _ | _
  · rfl
  · exact absurd (.inl ⟨a, hpull⟩) h
  all_goals rfl

theorem Source.not_tellsEnd_of_not_answersAt {src : Source ω σ α} {s : σ}
    (h : ¬ src.AnswersAt s) : SourceCall.tellsEnd (.pull (src.pull s).1) = false := by
  rcases hpull : (src.pull s).1 with fault | ⟨a⟩ | _ | _ | _
  · rfl
  · rfl
  · exact absurd (.inr hpull) h
  all_goals rfl

/-- The fault of a call that can make nothing of the answer to a pull: that of the pull, or that the
answer cannot be read. -/
def faultOf : Except (Fault ω) (Pulled α) → Fault ω
  | .error fault => fault
  | .ok _ => .illTyped

/-- The state after a number of pulls. -/
def Source.after (src : Source ω σ α) : Nat → σ → σ
  | 0, s => s
  | n + 1, s => src.after n (src.pull s).2

theorem Source.after_after (src : Source ω σ α) (m n : Nat) (s : σ) :
    src.after m (src.after n s) = src.after (n + m) s := by
  induction n generalizing s with
  | zero => rw [Source.after, Nat.zero_add]
  | succ n ih => rw [Source.after, ih, Nat.succ_add, Source.after]

/-- Every pull gives an element or the end, however often the source is pulled from this state. -/
def Source.NeverFails (src : Source ω σ α) (s : σ) : Prop := ∀ n, src.AnswersAt (src.after n s)

theorem Source.NeverFails.after {src : Source ω σ α} {s : σ} (h : src.NeverFails s) (n : Nat) :
    src.NeverFails (src.after n s) := by
  intro m
  rw [src.after_after]
  exact h (n + m)

/-! ## Sources with a record -/

/-- The state of a source with the calls made to it, in order. -/
structure Recorded (ω σ α : Type) where
  state : σ
  calls : List (SourceCall ω α)

/-- A state before any call. -/
def Recorded.fresh (s : σ) : Recorded ω σ α := ⟨s, []⟩

/-- The source that does what `src` does and records every call. -/
def Source.recorded (src : Source ω σ α) : Source ω (Recorded ω σ α) α where
  pull := fun r =>
    match src.pull r.state with
    | (outcome, s) => (outcome, ⟨s, r.calls ++ [.pull outcome]⟩)
  close := fun r =>
    match src.close r.state with
    | (outcome, s) => (outcome, ⟨s, r.calls ++ [.close outcome]⟩)

theorem Source.recorded_pull {src : Source ω σ α} {r : Recorded ω σ α}
    {outcome : Except (Fault ω) (Pulled α)} {s : σ} (hpull : src.pull r.state = (outcome, s)) :
    src.recorded.pull r = (outcome, ⟨s, r.calls ++ [.pull outcome]⟩) := by
  simp only [Source.recorded, hpull]

/-- The element that a partitioner holds ahead, if there is one. -/
def Partitioner.held (p : Partitioner σ τ α) : List α :=
  match p.ahead with
  | some (.element a) => [a]
  | _ => []

theorem Partitioner.held_eq_nil {p : Partitioner σ τ α} (h : ∀ a, p.ahead ≠ some (.element a)) :
    p.held = [] := by
  unfold held
  split
  · exact absurd ‹_› (h _)
  · rfl

/-! ## Maps of sources -/

/-- On the states that `f` makes, `src'` does what `src` does. -/
structure Source.Carries (f : σ → σ') (src : Source ω σ α) (src' : Source ω σ' α) : Prop where
  pull : ∀ s, src'.pull (f s) = Prod.map id f (src.pull s)
  close : ∀ s, src'.close (f s) = Prod.map id f (src.close s)

theorem Source.carries_recorded (src : Source ω σ α) :
    Source.Carries Recorded.state src.recorded src where
  pull := fun _ => rfl
  close := fun _ => rfl

/-- A source on the states in which an invariant holds that its calls keep. -/
def Source.restrict (src : Source ω σ α) (J : σ → Prop) (hpull : ∀ s, J s → J (src.pull s).2)
    (hclose : ∀ s, J s → J (src.close s).2) : Source ω {s // J s} α where
  pull := fun s => ((src.pull s).1, ⟨(src.pull s).2, hpull s s.2⟩)
  close := fun s => ((src.close s).1, ⟨(src.close s).2, hclose s s.2⟩)

namespace Partitioner

/-- The partitioner with its source in another form. -/
def mapSource (f : σ → σ') (p : Partitioner σ τ α) : Partitioner σ' τ α :=
  { p with source := f p.source }

section Carries

variable {f : σ → σ'} {src : Source ω σ α} {src' : Source ω σ' α}

theorem inspect_mapSource (log : Sink ω τ) (answer : Pulled α) (p : Partitioner σ τ α) :
    inspect log answer (p.mapSource f) = Prod.map id (mapSource f) (inspect log answer p) := by
  cases answer with
  | finished =>
      rw [inspect, inspect, reportEnd_eq, reportEnd_eq]
      rfl
  | _ => rfl

theorem hasMore_mapSource (h : Source.Carries f src src') (log : Sink ω τ)
    (p : Partitioner σ τ α) :
    hasMore src' log (p.mapSource f) = Prod.map id (mapSource f) (hasMore src log p) := by
  obtain ⟨size, source, sink, ahead, ended, partitions, elements⟩ := p
  cases ended with
  | true => rfl
  | false =>
      cases ahead with
      | some answer => exact inspect_mapSource log answer _
      | none =>
          simp only [hasMore, mapSource, h.pull]
          rcases src.pull source with ⟨_ | answer, source⟩
          · rfl
          · exact inspect_mapSource log answer
              ⟨size, source, sink, none, false, partitions, elements⟩

theorem gather_mapSource (h : Source.Carries f src src') (room : Nat) (s : σ) :
    gather src' room (f s) = Prod.map id f (gather src room s) := by
  induction room generalizing s with
  | zero => rfl
  | succ room ih =>
      simp only [gather, h.pull]
      rcases src.pull s with ⟨_ | ⟨a⟩ | _ | _, s'⟩
      all_goals simp only [Prod.map, id, ih]
      rcases gather src room s' with ⟨_ | _, _⟩ <;> rfl

theorem emit_mapSource (log : Sink ω τ) (chunk : List α) (p : Partitioner σ τ α) :
    emit log chunk (p.mapSource f) = Prod.map id (mapSource f) (emit log chunk p) := by
  rw [emit_eq, emit_eq]
  rfl

theorem fill_mapSource (h : Source.Carries f src src') (log : Sink ω τ) (a : α)
    (p : Partitioner σ τ α) :
    fill src' log a (p.mapSource f) = Prod.map id (mapSource f) (fill src log a p) := by
  simp only [fill, mapSource, gather_mapSource h]
  rcases gather src (p.size.toNat - 1) p.source with ⟨_ | ⟨rest, finished⟩, source⟩
  · rfl
  · exact emit_mapSource log (a :: rest)
      { p with source, ahead := if finished then some .finished else none }

theorem next_mapSource (h : Source.Carries f src src') (log : Sink ω τ)
    (p : Partitioner σ τ α) :
    next src' log (p.mapSource f) = Prod.map id (mapSource f) (next src log p) := by
  simp only [next, hasMore_mapSource h]
  rcases hasMore src log p with ⟨_ | _ | _, q⟩
  · rfl
  · rfl
  · obtain ⟨size, source, sink, ahead, ended, partitions, elements⟩ := q
    rcases ahead with _ | ⟨a⟩ | _ | _ | _
    · rfl
    · exact fill_mapSource h log a ⟨size, source, sink, _, ended, partitions, elements⟩
    all_goals rfl

theorem perform_mapSource (h : Source.Carries f src src') (log : Sink ω τ) (op : Operation)
    (p : Partitioner σ τ α) :
    perform src' log op (p.mapSource f) = Prod.map id (mapSource f) (perform src log op p) := by
  cases op with
  | hasMore => simp only [perform, hasMore_mapSource h]; rfl
  | next => simp only [perform, next_mapSource h]; rfl
  | nextOrFail =>
      simp only [perform, nextOrFail, next_mapSource h]
      rcases next src log p with ⟨_ | _ | _, _⟩ <;> rfl
  | stop =>
      obtain ⟨size, source, sink, ahead, ended, partitions, elements⟩ := p
      cases ended with
      | true => rfl
      | false =>
          simp only [perform, stop, mapSource, h.close]
          rfl

/-- A run over a source in another form gives the same answers, and its state is the state of the
run over the source in that form. -/
theorem run_mapSource (h : Source.Carries f src src') (log : Sink ω τ) (ops : List Operation)
    (p : Partitioner σ τ α) :
    run src' log ops (p.mapSource f) = Prod.map id (mapSource f) (run src log ops p) := by
  induction ops generalizing p with
  | nil => rfl
  | cons op ops ih =>
      simp only [run, perform_mapSource h, Prod.map_fst, Prod.map_snd, ih, id]
      rfl

/-- What the calls to a source keep, a run over it keeps. -/
theorem run_keeps_source {src : Source ω σ α} {J : σ → Prop}
    (hpull : ∀ s, J s → J (src.pull s).2) (hclose : ∀ s, J s → J (src.close s).2) (log : Sink ω τ)
    (ops : List Operation) {p : Partitioner σ τ α} (h : J p.source) :
    J (run src log ops p).2.source := by
  have hcarries : Source.Carries Subtype.val (src.restrict J hpull hclose) src :=
    ⟨fun _ => rfl, fun _ => rfl⟩
  have hrun := run_mapSource hcarries log ops
    ({ p with source := ⟨p.source, h⟩ } : Partitioner {s // J s} τ α)
  rw [show mapSource Subtype.val _ = p from rfl] at hrun
  rw [hrun]
  exact (run (src.restrict J hpull hclose) log ops _).2.source.2

end Carries

/-! ## Runs with a record -/

/-- The state after a run, with the record of the calls that the run made to its source. -/
def recordAfter (src : Source ω σ α) (log : Sink ω τ) (ops : List Operation)
    (p : Partitioner σ τ α) : Partitioner (Recorded ω σ α) τ α :=
  (run src.recorded log ops (p.mapSource .fresh)).2

/-- Recording changes neither the answers nor the state. -/
theorem run_recorded (src : Source ω σ α) (log : Sink ω τ) (ops : List Operation)
    (p : Partitioner σ τ α) :
    (run src.recorded log ops (p.mapSource .fresh)).1 = (run src log ops p).1 ∧
      (recordAfter src log ops p).mapSource Recorded.state = (run src log ops p).2 := by
  have h := run_mapSource src.carries_recorded log ops (p.mapSource .fresh)
  exact ⟨(congrArg Prod.fst h).symm, (congrArg Prod.snd h).symm⟩

theorem recordAfter_snoc (src : Source ω σ α) (log : Sink ω τ) (ops : List Operation)
    (op : Operation) (p : Partitioner σ τ α) :
    recordAfter src log (ops ++ [op]) p
      = (perform src.recorded log op (recordAfter src log ops p)).2 := by
  rw [recordAfter, run_snoc]
  rfl

/-- The last call of a run adds the partition that it hands out. -/
theorem handedOut_recorded_snoc (src : Source ω σ α) (log : Sink ω τ) (ops : List Operation)
    (op : Operation) (p : Partitioner σ τ α) :
    handedOut (run src log (ops ++ [op]) p).1
      = handedOut (run src log ops p).1
        ++ (perform src.recorded log op (recordAfter src log ops p)).1.chunk?.toList := by
  rw [← (run_recorded src log ops p).1, ← (run_recorded src log (ops ++ [op]) p).1,
    handedOut_run_snoc]
  rfl

/-- The state after the call at a place of a run. -/
theorem recordAfter_take_succ (src : Source ω σ α) (log : Sink ω τ) {ops : List Operation}
    {i : Nat} {op : Operation} (hi : ops[i]? = some op) (p : Partitioner σ τ α) :
    recordAfter src log (ops.take (i + 1)) p
      = (perform src.recorded log op (recordAfter src log (ops.take i) p)).2 := by
  rw [List.take_add_one, hi, Option.toList_some, recordAfter_snoc]

/-- The answer to the call at a place of a run. -/
theorem answer_recorded (src : Source ω σ α) (log : Sink ω τ) {ops : List Operation}
    {i : Nat} {op : Operation} (hi : ops[i]? = some op) (p : Partitioner σ τ α) :
    (run src log ops p).1[i]?
      = some (perform src.recorded log op (recordAfter src log (ops.take i) p)).1 := by
  rw [← (run_recorded src log ops p).1, getElem?_run, hi]
  rfl

/-! ## What a partition reads -/

/-- What gathering up to `room` elements asks of the source, with the state and the record after it:
it fills the room, or comes to the end of the source before, or a pull before breaks it off. -/
inductive Gathered (src : Source ω σ α) (room : Nat) (r : Recorded ω σ α) :
    Except (Fault ω) (List α × Bool) × Recorded ω σ α → Prop
  | full (xs : List α) (hlength : xs.length = room) :
      Gathered src room r
        (.ok (xs, false), ⟨src.after xs.length r.state, r.calls ++ SourceCall.handing xs⟩)
  | short (xs : List α) (hlength : xs.length < room) :
      Gathered src room r (.ok (xs, true), ⟨src.after (xs.length + 1) r.state,
        r.calls ++ SourceCall.handing xs ++ [.pull (.ok .finished)]⟩)
  | broken (xs : List α) (fault : Fault ω) (hlength : xs.length < room)
      (hbroken : ¬ src.AnswersAt (src.after xs.length r.state))
      (hfault : fault = faultOf (src.pull (src.after xs.length r.state)).1) :
      Gathered src room r (.error fault, ⟨src.after (xs.length + 1) r.state,
        r.calls ++ SourceCall.handing xs ++ [.pull (src.pull (src.after xs.length r.state)).1]⟩)

/-- An element read before the others is gathered with them. -/
theorem Gathered.cons {src : Source ω σ α} {room : Nat} {r : Recorded ω σ α} {a : α} {s : σ}
    {result : Except (Fault ω) (List α × Bool) × Recorded ω σ α}
    (hpull : src.pull r.state = (.ok (.element a), s))
    (h : Gathered src room ⟨s, r.calls ++ [.pull (.ok (.element a))]⟩ result) :
    Gathered src (room + 1) r (result.1.map fun read => (a :: read.1, read.2), result.2) := by
  have hafter (n : Nat) : src.after n s = src.after (n + 1) r.state := by rw [Source.after, hpull]
  have hcalls (xs : List α) : r.calls ++ [.pull (.ok (.element a))] ++ SourceCall.handing xs
      = r.calls ++ SourceCall.handing (a :: xs) := List.append_assoc ..
  cases h with
  | full xs hlength =>
      rw [hafter, hcalls]
      exact .full (a :: xs) (congrArg (· + 1) hlength)
  | short xs hlength =>
      rw [hafter, hcalls]
      exact .short (a :: xs) (Nat.succ_lt_succ hlength)
  | broken xs fault hlength hbroken hfault =>
      simp only [hafter, hcalls] at hbroken hfault ⊢
      exact .broken (a :: xs) fault (Nat.succ_lt_succ hlength) hbroken hfault

theorem gather_recorded (src : Source ω σ α) (room : Nat) (r : Recorded ω σ α) :
    Gathered src room r (gather src.recorded room r) := by
  -- one element less to gather, with the pull of it in the record
  induction room generalizing r with
  | zero =>
      have h : Gathered src 0 r _ := .full [] rfl
      simpa [SourceCall.handing, gather, Source.after] using h
  | succ room ih =>
      rcases hpull : src.pull r.state with ⟨outcome, s⟩
      have hrecord := Source.recorded_pull hpull
      have hbroken (hs : ¬ src.AnswersAt r.state) :
          Gathered src (room + 1) r
            (.error (faultOf outcome), ⟨s, r.calls ++ [.pull outcome]⟩) := by
        have h : Gathered src (room + 1) r _ := .broken [] _ (Nat.succ_pos room) hs rfl
        simpa [SourceCall.handing, Source.after, hpull] using h
      rcases outcome with fault | ⟨a⟩ | _ | _ | _
      · rw [gather, hrecord]
        exact hbroken (by simp [Source.AnswersAt, hpull])
      · have hstep : gather src.recorded (room + 1) r
            = ((gather src.recorded room ⟨s, r.calls ++ [.pull (.ok (.element a))]⟩).1.map
                fun read => (a :: read.1, read.2),
              (gather src.recorded room ⟨s, r.calls ++ [.pull (.ok (.element a))]⟩).2) := by
          simp only [gather, hrecord]
          rcases gather src.recorded room _ with ⟨_ | _, _⟩ <;> rfl
        rw [hstep]
        exact (ih _).cons hpull
      · rw [gather, hrecord]
        have h : Gathered src (room + 1) r _ := .short [] (Nat.succ_pos room)
        simpa [SourceCall.handing, Source.after, hpull] using h
      · rw [gather, hrecord]
        exact hbroken (by simp [Source.AnswersAt, hpull])
      · rw [gather, hrecord]
        exact hbroken (by simp [Source.AnswersAt, hpull])

end Partitioner

end Arrange
