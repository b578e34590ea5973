import Arrange.Log
import Arrange.Value.Basic

/-!
# Sources and logs of partitions

A source has a state of some type and answers each pull with an element or with its end, or fails.
It can also be closed. What it does on the way is open, so that sources that fail and go on, never
end or count their calls are all sources. A sink takes the events of partitioning in the same way.
-/

set_option autoImplicit false

namespace Arrange

/-- What a source answers when it is pulled. -/
inductive Pulled (α : Type) where
  | element (a : α)
  /-- The source is at its end. -/
  | finished
  /-- No answer at all. It cannot be read and leaves nothing behind. -/
  | blank
  /-- An answer that cannot be read. -/
  | unreadable

/-- A source of elements of type `α` whose state has type `σ`. -/
structure Source (ω σ α : Type) where
  /-- Asks for the next element. -/
  pull : σ → Except (Fault ω) (Pulled α) × σ
  /-- Ends the source early. -/
  close : σ → Except (Fault ω) Unit × σ

/-- What happens while a source is partitioned. -/
inductive PartitionEvent where
  /-- A partition was handed out: its index, counted from 0, and the number of its elements. -/
  | emitted (index size : Nat)
  /-- The source is at its end: the partitions handed out, and the elements in them. -/
  | exhausted (partitions elements : Nat)
deriving DecidableEq

namespace PartitionEvent

/-- The message under which an event is logged. -/
def message : PartitionEvent → Text
  | emitted _ _ => "Partition emitted"
  | exhausted _ _ => "Source exhausted"

/-- The data of an event under their names. -/
def data : PartitionEvent → List (Text × Nat)
  | emitted index size => [("index", index), ("size", size)]
  | exhausted partitions elements => [("partitions", partitions), ("elements", elements)]

end PartitionEvent

/-- A receiver of events whose state has type `τ`. -/
structure Sink (ω τ : Type) where
  receive : PartitionEvent → τ → Except (Fault ω) Unit × τ

namespace Sink

variable {ω τ : Type}

/-- The sink that drops every event. -/
def discard : Sink ω τ where
  receive := fun _ t => (.ok (), t)

/-- The sink that records every event in a log, at the most verbose level. -/
def recording : Sink ω (Log PartitionEvent) where
  receive := fun event log => (.ok (), log.record .debug event.message event)

end Sink

end Arrange
