import Arrange.CodedError
import Arrange.Value.Spelling

/-!
# Reports of faults

A fault that this library finds itself is reported under a code, with a message and with the
values concerned (`Fault.report?`). The two other faults have no code: a value that lacks what was
done with it, and a failure of the caller's own function.
-/

set_option autoImplicit false

namespace Arrange

/-! ## Codes -/

/-- The codes of the faults that comparisons and partitions report. -/
inductive ErrorCode where
  | notComparable
  | missingKeyExtractor
  | invalidPartitionSize
  | noSuchElement
deriving DecidableEq

namespace ErrorCode

/-- A code as it is written. -/
def text : ErrorCode → Text
  | notComparable => "NOT_COMPARABLE"
  | missingKeyExtractor => "MISSING_KEY_EXTRACTOR"
  | invalidPartitionSize => "INVALID_PARTITION_SIZE"
  | noSuchElement => "NO_SUCH_ELEMENT"

/-- The codes of comparisons, in alphabetical order. -/
def ofComparisons : List ErrorCode := [missingKeyExtractor, notComparable]

/-- The codes of partitions, in alphabetical order. -/
def ofPartitions : List ErrorCode := [invalidPartitionSize, noSuchElement]

end ErrorCode

/-- The name of the factory that makes the comparators of a family. -/
def KeyedOrder.factoryName : KeyedOrder → Text
  | .reference => "comparingIndexed"
  | .pinyin => "comparingPinyin"

/-! ## Reports -/

/-- What is told about a fault: the class of error, its code, a message, and the values concerned
under their names. -/
structure Report (ω : Type) where
  errorClass : ErrorClass
  code : ErrorCode
  message : Text
  context : List (Text × Value ω)

namespace Fault

variable {ω : Type} [Objects ω]

/-- The message for two values without a natural order in common. -/
def notComparableMessage (left right : Value ω) : Text :=
  Text.ofString "Cannot compare " ++ left.described ++ Text.ofString " with " ++
    right.described ++ Text.ofString ": no shared natural order"

/-- The report of a fault that has a code. -/
def report? : Fault ω → Option (Report ω)
  | .notComparable left right =>
      some ⟨.ofComparisons, .notComparable, notComparableMessage left right,
        [("left", left.reportedKind), ("right", right.reportedKind)]⟩
  | .missingKeyExtractor order =>
      some ⟨.ofComparisons, .missingKeyExtractor,
        order.factoryName ++ Text.ofString " requires a key extractor",
        [("factory", .text order.factoryName)]⟩
  | .invalidPartitionSize size =>
      some ⟨.ofPartitions, .invalidPartitionSize,
        Text.ofString "Partition size must be an integer >= 1, got " ++ size.described,
        [("size", size)]⟩
  | .noPartitionsRemain handedOut =>
      some ⟨.ofPartitions, .noSuchElement, "No partitions remain",
        [("partitions", .number (Float.ofNat handedOut))]⟩
  | .illTyped => none
  | .raised _ => none

end Fault

end Arrange
