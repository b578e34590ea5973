import Arrange.Catalog
import Arrange.Comparator.Contract
import Arrange.Comparator.Elementary
import Arrange.Comparator.Expression
import Arrange.Comparator.Pinyin
import Arrange.Comparator.Reference
import Arrange.Order.Extremum
import Arrange.Order.Selection
import Arrange.Report
import Arrange.Proofs.Partition.Run
import Arrange.Proofs.Partition.Slices
import Arrange.Proofs.Order.Kind
import Arrange.Proofs.Comparator.Lawful
import Arrange.Proofs.Comparator.Leaves
import Arrange.Proofs.Order.Hashing
import Arrange.Proofs.Order.Common
import Arrange.Proofs.Order.Universal
import Arrange.Proofs.Order.Stability
import Arrange.Proofs.Order.Transitivity
import Arrange.Proofs.Order.Comparability
import Arrange.Proofs.Order.Identity
import Arrange.Proofs.Order.Primitives
import Arrange.Proofs.Partition.Demand
import Arrange.Proofs.Partition.Loss
import Arrange.Proofs.Partition.Step
import Arrange.Proofs.Partition.Closing
import Arrange.Proofs.Partition.Ending
import Arrange.Proofs.Partition.Journal
import Arrange.Proofs.Order.Optional
import Arrange.Proofs.Order.Extension
import Arrange.Proofs.Order.Registry
import Arrange.Proofs.Order.Numbering
import Arrange.Proofs.Comparator.Checks
import Arrange.Proofs.Comparator.Absence
import Arrange.Proofs.Sorting.Stable
import Arrange.Proofs.Sorting.Merge
import Arrange.Proofs.Sorting.Run
import Arrange.Proofs.Sorting.Sort
import Arrange.Proofs.Sorting.Values
import Arrange.Proofs.Comparator.SortsAs
import Arrange.Proofs.Order.Ranked
import Arrange.Proofs.Order.Ranges
import Arrange.Proofs.Comparator.Extremum
import Arrange.Proofs.Comparator.Position
import Arrange.Proofs.Sorting.Blocks
import Arrange.Proofs.Comparator.Laws
import Arrange.Proofs.Comparator.Reversal
import Arrange.Proofs.Order.Choices
import Arrange.Proofs.Order.Ground
import Arrange.Proofs.Order.Failure
import Arrange.Proofs.Text.CodePoint
import Arrange.Proofs.Partition.Stream
import Arrange.Proofs.Partition.CodePoints
import Arrange.Proofs.Partition.Nested
import Arrange.Proofs.Text.Quoted
import Arrange.Proofs.Value.Distinction
