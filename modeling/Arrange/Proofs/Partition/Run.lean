import Arrange.Partition.Partitioner

/-!
# Runs of a partitioner

A consumer calls the four operations of a partitioner in any order. `Partitioner.perform` is one
call with its answer, `Partitioner.run` a list of calls, each made on the state that the one before
left, also where that one failed. `handedOut` are the partitions among the answers.
-/

set_option autoImplicit false

namespace Arrange.Partitioner

/-! ## Calls and answers -/

/-- What a consumer can ask of a partitioner. -/
inductive Operation where
  | hasMore
  | next
  | nextOrFail
  | stop
deriving DecidableEq

/-- What a consumer is told. A partition is handed out by `next` or by `nextOrFail`. -/
inductive Answer (ω α : Type) where
  | more (available : Bool)
  | partition (chunk : List α)
  | exhausted
  | stopped
  | failed (fault : Fault ω)

variable {ω σ τ α : Type}

/-- The partition that an answer hands out. -/
def Answer.chunk? : Answer ω α → Option (List α)
  | .partition chunk => some chunk
  | _ => none

/-- The partitions among answers, in order. -/
def handedOut (answers : List (Answer ω α)) : List (List α) := answers.filterMap Answer.chunk?

theorem handedOut_snoc (answers : List (Answer ω α)) (answer : Answer ω α) :
    handedOut (answers ++ [answer]) = handedOut answers ++ answer.chunk?.toList := by
  rw [handedOut, List.filterMap_append]
  rfl

/-- The answer that the outcome of an operation gives. -/
def answerOf {β : Type} (told : β → Answer ω α) : Except (Fault ω) β → Answer ω α
  | .ok b => told b
  | .error fault => .failed fault

/-- The answer for what `next` gives. -/
def nextAnswer : Option (List α) → Answer ω α
  | some chunk => .partition chunk
  | none => .exhausted

/-- One call: its answer and the state after it. -/
def perform (src : Source ω σ α) (log : Sink ω τ) (op : Operation) (p : Partitioner σ τ α) :
    Answer ω α × Partitioner σ τ α :=
  match op with
  | .hasMore => (answerOf .more (hasMore src log p).1, (hasMore src log p).2)
  | .next => (answerOf nextAnswer (next src log p).1, (next src log p).2)
  | .nextOrFail => (answerOf .partition (nextOrFail src log p).1, (nextOrFail src log p).2)
  | .stop => (answerOf (fun _ => .stopped) (stop src p).1, (stop src p).2)

/-! ## The operations, case by case -/

section Cases

variable {src : Source ω σ α} {log : Sink ω τ} {p : Partitioner σ τ α}

theorem hasMore_of_ended (hend : p.ended = true) : hasMore src log p = (.ok false, p) := by
  simp [hasMore, hend]

theorem hasMore_of_ahead {answer : Pulled α} (hend : p.ended = false)
    (hahead : p.ahead = some answer) : hasMore src log p = inspect log answer p := by
  simp [hasMore, hend, hahead]

theorem hasMore_of_pull {answer : Pulled α} {source : σ} (hend : p.ended = false)
    (hahead : p.ahead = none) (hpull : src.pull p.source = (.ok answer, source)) :
    hasMore src log p = inspect log answer { p with source } := by
  simp [hasMore, hend, hahead, hpull]

theorem hasMore_of_broken {fault : Fault ω} {source : σ} (hend : p.ended = false)
    (hahead : p.ahead = none) (hpull : src.pull p.source = (.error fault, source)) :
    hasMore src log p = (.error fault, { p with source }) := by
  simp [hasMore, hend, hahead, hpull]

theorem reportEnd_eq (log : Sink ω τ) (p : Partitioner σ τ α) :
    reportEnd log p
      = ((log.receive (.exhausted p.partitions p.elements) p.sink).1.map fun _ => false, { p with
          sink := (log.receive (.exhausted p.partitions p.elements) p.sink).2
          ended := true
          ahead := none }) := by
  rw [reportEnd]
  rcases log.receive (.exhausted p.partitions p.elements) p.sink with ⟨_ | _, _⟩ <;> rfl

theorem next_of_more {q : Partitioner σ τ α} {a : α} (hmore : hasMore src log p = (.ok true, q))
    (hahead : q.ahead = some (.element a)) : next src log p = fill src log a q := by
  simp [next, hmore, hahead]

theorem next_of_end {q : Partitioner σ τ α} {logged : Except (Fault ω) Unit}
    (hmore : hasMore src log p = (logged.map fun _ => false, q)) :
    next src log p = (logged.map fun _ => none, q) := by
  cases logged <;> simp [next, hmore, Except.map]

theorem fill_of_gather {a : α} {rest : List α} {finished : Bool} {source : σ}
    (hgather : gather src (p.size.toNat - 1) p.source = (.ok (rest, finished), source)) :
    fill src log a p = emit log (a :: rest)
      { p with source, ahead := if finished then some .finished else none } := by
  simp [fill, hgather]

theorem fill_of_broken {a : α} {fault : Fault ω} {source : σ}
    (hgather : gather src (p.size.toNat - 1) p.source = (.error fault, source)) :
    fill src log a p = (.error fault, { p with source, ahead := none }) := by
  simp [fill, hgather]

/-- A partition is handed out unless its log fails. Its elements count either way, the partition
itself does not. -/
theorem emit_eq (log : Sink ω τ) (chunk : List α) (p : Partitioner σ τ α) :
    emit log chunk p
      = ((log.receive (.emitted p.partitions chunk.length) p.sink).1.map fun _ => some chunk,
        { p with
          elements := p.elements + chunk.length
          sink := (log.receive (.emitted p.partitions chunk.length) p.sink).2
          partitions := p.partitions
            + (log.receive (.emitted p.partitions chunk.length) p.sink).1.isOk.toNat }) := by
  rw [emit]
  rcases log.receive (.emitted p.partitions chunk.length) p.sink with ⟨_ | _, _⟩ <;> rfl

/-- A partitioner that is not at its end closes its source, and comes to its end whatever that
gives. -/
theorem stop_of_open (hend : p.ended = false) :
    stop src p = ((src.close p.source).1,
      { p with source := (src.close p.source).2, ended := true, ahead := none }) := by
  simp [stop, hend]

end Cases

/-! ## Runs -/

/-- The answers to calls made one after another, and the state after them. -/
def run (src : Source ω σ α) (log : Sink ω τ) :
    List Operation → Partitioner σ τ α → List (Answer ω α) × Partitioner σ τ α
  | [], p => ([], p)
  | op :: ops, p =>
      let step := perform src log op p
      let rest := run src log ops step.2
      (step.1 :: rest.1, rest.2)

section Run

variable (src : Source ω σ α) (log : Sink ω τ)

theorem run_append (ops more : List Operation) (p : Partitioner σ τ α) :
    run src log (ops ++ more) p
      = ((run src log ops p).1 ++ (run src log more (run src log ops p).2).1,
          (run src log more (run src log ops p).2).2) := by
  induction ops generalizing p with
  | nil => rfl
  | cons op ops ih =>
      show run src log (op :: (ops ++ more)) p = _
      simp only [run, ih, List.cons_append]

/-- The last call of a run is made on the state that the others left. -/
theorem run_snoc (ops : List Operation) (op : Operation) (p : Partitioner σ τ α) :
    run src log (ops ++ [op]) p
      = ((run src log ops p).1 ++ [(perform src log op (run src log ops p).2).1],
          (perform src log op (run src log ops p).2).2) := by
  rw [run_append]
  rfl

/-- The answers to the first calls do not depend on the calls after them. -/
theorem take_run (ops : List Operation) (p : Partitioner σ τ α) (i : Nat) :
    (run src log ops p).1.take i = (run src log (ops.take i) p).1 := by
  induction ops generalizing p i with
  | nil => simp [run]
  | cons op ops ih =>
      cases i with
      | zero => rfl
      | succ i => simp only [run, List.take_succ_cons, ih]

/-- The answer at a place of a run is that of the call made there on the state before it. -/
theorem getElem?_run (ops : List Operation) (p : Partitioner σ τ α) (i : Nat) :
    (run src log ops p).1[i]?
      = (ops[i]?).map fun op => (perform src log op (run src log (ops.take i) p).2).1 := by
  induction ops generalizing p i with
  | nil => simp [run]
  | cons op ops ih =>
      cases i with
      | zero => simp [run]
      | succ i => simpa only [run, List.getElem?_cons_succ, List.take_succ_cons] using ih _ i

end Run

/-- The last call of a run adds the partition that it hands out. -/
theorem handedOut_run_snoc (src : Source ω σ α) (log : Sink ω τ) (ops : List Operation)
    (op : Operation) (p : Partitioner σ τ α) :
    handedOut (run src log (ops ++ [op]) p).1
      = handedOut (run src log ops p).1
        ++ (perform src log op (run src log ops p).2).1.chunk?.toList := by
  rw [run_snoc, handedOut_snoc]

end Arrange.Partitioner
