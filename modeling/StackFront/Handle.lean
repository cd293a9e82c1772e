import StackFront.Text.Label

/-!
# Handles

Structs and procedures are kept in tables that only grow, and are referred to by their position in
the table, their handle. Two procedures of the same signature have different handles; handles of
structs and of procedures are different types and cannot be mixed up.
-/

namespace StackFront

/-- **The handle of a struct.** -/
structure StructId where
  index : Nat
deriving DecidableEq

/-- **The handle of a procedure.** -/
structure ProcId where
  index : Nat
deriving DecidableEq

/-- The form of the handle in log records. -/
def StructId.label (id : StructId) : String := Text.applied "StructId" (toString id.index)

/-- The form of the handle in log records. -/
def ProcId.label (id : ProcId) : String := Text.applied "ProcId" (toString id.index)

end StackFront
