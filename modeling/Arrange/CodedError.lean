import Arrange.Value.Basic

/-!
# Coded errors

A coded error is told apart by its code and by its class. All its classes descend from one base
class; `ErrorClass.derived` makes a class for a context, and each time it is made it is a new
class, even for the same context.
-/

set_option autoImplicit false

namespace Arrange

/-- The classes of errors. -/
inductive ErrorClass where
  /-- Errors without a code. -/
  | uncoded
  /-- The base class of all coded errors. -/
  | base
  /-- The class made for a context, with the number that tells it from others of that context. -/
  | derived (context : Text) (serial : Nat)
deriving DecidableEq

namespace ErrorClass

/-- The class of faults in comparisons. -/
def ofComparisons : ErrorClass := derived "Compare" 0

/-- The class of faults in partitions. -/
def ofPartitions : ErrorClass := derived "Collection" 0

/-- The name of a class: of a derived one the context's name and `Error`. -/
def name : ErrorClass → Text
  | uncoded => "Error"
  | base => "ToolkitError"
  | derived context _ => context ++ Text.ofString "Error"

/-- Whether every error of the first class is one of the second. -/
def isWithin (c d : ErrorClass) : Bool :=
  c == d || d == uncoded || (d == base && c != uncoded)

end ErrorClass

/-- An error with a code, a message and the values concerned, which are `undefined` when none
were given. -/
structure CodedError (ω : Type) where
  errorClass : ErrorClass
  code : Text
  message : Text
  context : Value ω

namespace CodedError

variable {ω : Type}

/-- The name that an error shows. -/
def name (e : CodedError ω) : Text := e.errorClass.name

/-- Whether an error descends from the base class. -/
def isCoded (e : CodedError ω) : Bool := e.errorClass.isWithin .base

/-- The code of a coded error. -/
def code? (e : CodedError ω) : Option Text := if e.isCoded then some e.code else none

/-- The text of an error: its name and its message, without the mark between when one is empty. -/
def text (e : CodedError ω) : Text :=
  if e.message.isEmpty then e.name
  else if e.name.isEmpty then e.message
  else e.name ++ Text.ofString ": " ++ e.message

end CodedError

namespace Value

variable {ω : Type} [Objects ω]

/-- The code of a value that is a coded error. -/
def errorCode? : Value ω → Option Text
  | .object o => Objects.errorCode? o
  | _ => none

/-- Whether a value is a coded error. -/
def isCodedError (v : Value ω) : Bool := v.errorCode?.isSome

/-- Whether a value is a coded error with this code. -/
def carriesCode (v : Value ω) (code : Value ω) : Bool :=
  match v.errorCode?, code with
  | some c, .text t => c == t
  | _, _ => false

end Value

end Arrange
