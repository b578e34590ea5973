import Arrange.Partition.Size
import Arrange.Partition.Source

/-!
# Partitioning a source

A `Partitioner` hands out the elements of a source in partitions: lists of at most `size`
elements that follow one another. It pulls only on demand, and at most one element further than
what it has handed out: `hasMore` pulls that element to find out whether there is another
partition, and the element then opens that partition.

Every operation gives the state afterwards also when it fails, so that a run can go on.
-/

set_option autoImplicit false

namespace Arrange

/-- The state of partitioning a source. -/
structure Partitioner (σ τ α : Type) where
  size : PartitionSize
  source : σ
  sink : τ
  /-- The answer of the source that is still to be used. -/
  ahead : Option (Pulled α)
  /-- Whether the end was reported, or the source closed. -/
  ended : Bool
  /-- How many partitions were handed out. -/
  partitions : Nat
  /-- How many elements were handed out. -/
  elements : Nat

namespace Partitioner

variable {ω σ τ α : Type}

/-- The outcome of an operation and the state after it. -/
abbrev Outcome (ω σ τ α β : Type) := Except (Fault ω) β × Partitioner σ τ α

/-- The state before anything was pulled. -/
def start (size : PartitionSize) (source : σ) (sink : τ) : Partitioner σ τ α :=
  ⟨size, source, sink, none, false, 0, 0⟩

/-- The partitioner of a source by a size that any value may stand for. The size is checked first,
then the source, then the sink. -/
def make (size : Value ω) (source : Except (Fault ω) σ) (sink : Except (Fault ω) τ) :
    Except (Fault ω) (Partitioner σ τ α) := do
  let checked ← PartitionSize.ofValue size
  return start checked (← source) (← sink)

/-! ## Looking ahead -/

/-- The end is reported: nothing is kept and nothing more will be pulled. -/
def reportEnd (log : Sink ω τ) (p : Partitioner σ τ α) : Outcome ω σ τ α Bool :=
  match log.receive (.exhausted p.partitions p.elements) p.sink with
  | (.ok _, sink) => (.ok false, { p with sink, ended := true, ahead := none })
  | (.error fault, sink) => (.error fault, { p with sink, ended := true, ahead := none })

/-- What an answer of the source says about another partition. -/
def inspect (log : Sink ω τ) (answer : Pulled α) (p : Partitioner σ τ α) :
    Outcome ω σ τ α Bool :=
  match answer with
  | .element a => (.ok true, { p with ahead := some (.element a) })
  | .finished => reportEnd log p
  | .blank => (.error .illTyped, { p with ahead := none })
  | .unreadable => (.error .illTyped, { p with ahead := some .unreadable })

/-- Whether another partition is available. Asked again, it pulls nothing more. -/
def hasMore (src : Source ω σ α) (log : Sink ω τ) (p : Partitioner σ τ α) :
    Outcome ω σ τ α Bool :=
  if p.ended then (.ok false, p)
  else
    match p.ahead with
    | some answer => inspect log answer p
    | none =>
        match src.pull p.source with
        | (.ok answer, source) => inspect log answer { p with source }
        | (.error fault, source) => (.error fault, { p with source })

/-! ## Handing out -/

/-- Up to `room` further elements of the source, and whether it came to its end. -/
def gather (src : Source ω σ α) : Nat → σ → Except (Fault ω) (List α × Bool) × σ
  | 0, s => (.ok ([], false), s)
  | room + 1, s =>
      match src.pull s with
      | (.error fault, s) => (.error fault, s)
      | (.ok (.element a), s) =>
          match gather src room s with
          | (.ok (rest, finished), s) => (.ok (a :: rest, finished), s)
          | (.error fault, s) => (.error fault, s)
      | (.ok .finished, s) => (.ok ([], true), s)
      | (.ok .blank, s) => (.error .illTyped, s)
      | (.ok .unreadable, s) => (.error .illTyped, s)

/-- A partition is handed out: its elements count, it is logged, and then it counts itself. -/
def emit (log : Sink ω τ) (chunk : List α) (p : Partitioner σ τ α) :
    Outcome ω σ τ α (Option (List α)) :=
  let p := { p with elements := p.elements + chunk.length }
  match log.receive (.emitted p.partitions chunk.length) p.sink with
  | (.ok _, sink) => (.ok (some chunk), { p with sink, partitions := p.partitions + 1 })
  | (.error fault, sink) => (.error fault, { p with sink })

/-- The partition that an element opens. -/
def fill (src : Source ω σ α) (log : Sink ω τ) (a : α) (p : Partitioner σ τ α) :
    Outcome ω σ τ α (Option (List α)) :=
  match gather src (p.size.toNat - 1) p.source with
  | (.ok (rest, finished), source) =>
      emit log (a :: rest)
        { p with source, ahead := if finished then some .finished else none }
  | (.error fault, source) => (.error fault, { p with source, ahead := none })

/-- The next partition, or `none` at the end. -/
def next (src : Source ω σ α) (log : Sink ω τ) (p : Partitioner σ τ α) :
    Outcome ω σ τ α (Option (List α)) :=
  match hasMore src log p with
  | (.error fault, p) => (.error fault, p)
  | (.ok false, p) => (.ok none, p)
  | (.ok true, p) =>
      match p.ahead with
      | some (.element a) => fill src log a p
      | _ => (.ok none, p)

/-- The next partition; at the end there is none to hand out, which is a fault. -/
def nextOrFail (src : Source ω σ α) (log : Sink ω τ) (p : Partitioner σ τ α) :
    Outcome ω σ τ α (List α) :=
  match next src log p with
  | (.ok (some chunk), p) => (.ok chunk, p)
  | (.ok none, p) => (.error (.noPartitionsRemain p.partitions), p)
  | (.error fault, p) => (.error fault, p)

/-- Stops early: the end counts as reported, and a source that has not come to it is closed. -/
def stop (src : Source ω σ α) (p : Partitioner σ τ α) : Outcome ω σ τ α Unit :=
  if p.ended then (.ok (), p)
  else
    match src.close p.source with
    | (outcome, source) => (outcome, { p with source, ended := true, ahead := none })

/-! ## Partitions as elements -/

/-- A partitioner as a source: its elements are the partitions, made elements by `wrap`. -/
def asSource {β : Type} (src : Source ω σ α) (log : Sink ω τ) (wrap : List α → β) :
    Source ω (Partitioner σ τ α) β where
  pull := fun p =>
    match next src log p with
    | (.ok (some chunk), p) => (.ok (.element (wrap chunk)), p)
    | (.ok none, p) => (.ok .finished, p)
    | (.error fault, p) => (.error fault, p)
  close := stop src

end Partitioner

end Arrange
