import Arrange.Partition.Partitioner

/-!
# Going through partitions

`collect` takes partitions one after another up to a limit. `visit` does the same for a consumer
that breaks off at the limit, which stops the partitioner, and `visitFailing` for a consumer that
fails there.
-/

set_option autoImplicit false

namespace Arrange.Partitioner

variable {ω σ τ α : Type}

/-- Why no more partitions were taken. -/
inductive Ending (ω : Type) where
  | exhausted
  | limit
  | failed (fault : Fault ω)

/-- The next partitions, at most `limit` of them, and why it ended. -/
def collect (src : Source ω σ α) (log : Sink ω τ) :
    Nat → Partitioner σ τ α → List (List α) × Ending ω × Partitioner σ τ α
  | 0, p => ([], .limit, p)
  | limit + 1, p =>
      match next src log p with
      | (.ok (some chunk), p) =>
          match collect src log limit p with
          | (rest, ending, p) => (chunk :: rest, ending, p)
      | (.ok none, p) => ([], .exhausted, p)
      | (.error fault, p) => ([], .failed fault, p)

/-- All partitions that are left, at most `limit` of them. A failure loses those taken before. -/
def drain (src : Source ω σ α) (log : Sink ω τ) (limit : Nat) (p : Partitioner σ τ α) :
    Outcome ω σ τ α (List (List α)) :=
  match collect src log limit p with
  | (_, .failed fault, p) => (.error fault, p)
  | (chunks, _, p) => (.ok chunks, p)

/-- What a consumer saw: the partitions, and the fault that it ended with, if any. -/
structure Visit (ω α : Type) where
  chunks : List (List α)
  fault? : Option (Fault ω)

/-- A consumer that breaks off when it has seen `limit` partitions. The partitioner is then
stopped, and a failure of that is the consumer's. -/
def visit (src : Source ω σ α) (log : Sink ω τ) (limit : Nat) (p : Partitioner σ τ α) :
    Visit ω α × Partitioner σ τ α :=
  match collect src log limit p with
  | (chunks, .exhausted, p) => (⟨chunks, none⟩, p)
  | (chunks, .failed fault, p) => (⟨chunks, some fault⟩, p)
  | (chunks, .limit, p) =>
      match stop src p with
      | (.ok _, p) => (⟨chunks, none⟩, p)
      | (.error fault, p) => (⟨chunks, some fault⟩, p)

/-- A consumer that fails when it has seen `limit` partitions. The partitioner is then stopped,
and a failure of that is dropped in favour of the consumer's own. -/
def visitFailing (src : Source ω σ α) (log : Sink ω τ) (limit : Nat) (fault : Fault ω)
    (p : Partitioner σ τ α) : Visit ω α × Partitioner σ τ α :=
  match collect src log limit p with
  | (chunks, .exhausted, p) => (⟨chunks, none⟩, p)
  | (chunks, .failed fault, p) => (⟨chunks, some fault⟩, p)
  | (chunks, .limit, p) =>
      match stop src p with
      | (_, p) => (⟨chunks, some fault⟩, p)

end Arrange.Partitioner
