import Arrange.Text.Basic

/-!
# Logs

A log is the list of the calls made to it, oldest first. `Log.atLevel` picks the calls of one
level and leaves the log as it is.
-/

set_option autoImplicit false

namespace Arrange

/-- The levels of a log, from the most verbose on. -/
inductive LogLevel where
  | debug
  | info
  | warn
  | error
deriving DecidableEq

/-- The name of a level. -/
def LogLevel.name : LogLevel → Text
  | debug => "DEBUG"
  | info => "INFO"
  | warn => "WARN"
  | error => "ERROR"

/-- One recorded call; `δ` is the type of the data that goes with a message. -/
structure LogCall (δ : Type) where
  level : LogLevel
  message : Text
  data : δ

/-- A log that records the calls made to it, oldest first. -/
structure Log (δ : Type) where
  calls : List (LogCall δ)

namespace Log

variable {δ : Type}

/-- The log without calls. -/
def empty : Log δ := ⟨[]⟩

instance : EmptyCollection (Log δ) := ⟨empty⟩

/-- The log with one more call. -/
def record (log : Log δ) (level : LogLevel) (message : Text) (data : δ) : Log δ :=
  ⟨log.calls ++ [⟨level, message, data⟩]⟩

/-- The calls at the level of this name, oldest first; a name that is no level has none. -/
def atLevel (log : Log δ) (name : Text) : List (LogCall δ) :=
  log.calls.filter fun call => call.level.name == name

/-- The messages at the level of this name. -/
def messagesOf (log : Log δ) (name : Text) : List Text := (log.atLevel name).map (·.message)

end Log

/-! ## Views -/

/-- A view of a log that is kept: the log itself, which shows later calls too, or a copy of some of
its calls. -/
inductive LogView (δ : Type) where
  | live
  | copy (calls : List (LogCall δ))

/-- The calls that a kept view shows when the log has come to be `log`. -/
def LogView.calls {δ : Type} (view : LogView δ) (log : Log δ) : List (LogCall δ) :=
  match view with
  | .live => log.calls
  | .copy calls => calls

end Arrange
