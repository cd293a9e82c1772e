import StackFront.Diagnostics.Basic
import StackFront.Memory.Arena
import StackFront.Names.Reserved

/-!
# Global names

Procedures, memory regions, constants, structs and enums share one flat space of names: a name that
stands for one of them stands for none of the others. The names are kept in one table for each kind,
and every definition looks through all five before it enters its own.

A name is turned down because it is taken or else because it is reserved, in this order. Procedures
and structs are entered by whoever defined them, after a check of their own.

* `vet_eq_ok_iff` says when a name is free.
-/

namespace StackFront

/-- **The names of a compilation**, by what they stand for. `syscalls` is the number of system call
words that are reserved. -/
structure Globals where
  procedures : Table String ProcId
  memory : Arena
  constants : Table String Int
  structs : Table String StructId
  enums : Table String (List String)
  syscalls : Nat

namespace Globals

/-- No name stands for anything. The alignment is that of the global arena. -/
def create (syscalls : Nat) (alignment : UInt64) : Except Fault Globals :=
  (Arena.create .global alignment).map fun memory => ⟨∅, memory, ∅, ∅, ∅, syscalls⟩

/-- Whether no entity can have the name, being a word of the language or of a system call. -/
def reserves (g : Globals) (name : String) : Bool := Names.isReserved g.syscalls name

/-- Whether the name stands for something, of whatever kind. -/
def holds (g : Globals) (name : String) : Bool :=
  g.procedures.contains name || g.memory.contains name || g.constants.contains name ||
    g.structs.contains name || g.enums.contains name

/-- Accepts a name that a new entity can have. -/
def vet (g : Globals) (name : String) (entity : Entity) : Except Cause Unit :=
  if g.holds name then .error (.nameCollision entity name)
  else if g.reserves name then .error (.reservedName entity name)
  else .ok ()

/-- A name is free when it is neither taken nor reserved. -/
theorem vet_eq_ok_iff {g : Globals} {name : String} {entity : Entity} :
    g.vet name entity = .ok () ↔ g.holds name = false ∧ g.reserves name = false := by
  unfold vet
  cases g.holds name <;> cases g.reserves name <;> simp

/-! ### Definitions -/

/-- Enters a procedure under its name, without looking whether the name is free. -/
def enterProcedure (g : Globals) (name : String) (id : ProcId) : Globals :=
  { g with procedures := g.procedures.insert name id }

/-- Enters a struct under its name, without looking whether the name is free. -/
def enterStruct (g : Globals) (name : String) (id : StructId) : Globals :=
  { g with structs := g.structs.insert name id }

/-- Enters a constant under a name that must be free. -/
def addConstant (g : Globals) (name : String) (value : Int) : Step (Except Cause Globals) :=
  match g.vet name .constant with
  | .error cause => return .error cause
  | .ok () => do
    Step.note .debug .names s!"constant {name} = {value}"
    return .ok { g with constants := g.constants.insert name value }

/-- Enters an enum, with the names of its variants, under a name that must be free. -/
def addEnum (g : Globals) (name : String) (variants : List String) :
    Step (Except Cause Globals) :=
  match g.vet name .enum with
  | .error cause => return .error cause
  | .ok () => do
    Step.note .debug .names s!"enum {name} ({variants.length} variants)"
    return .ok { g with enums := g.enums.insert name variants }

/-- Allocates a region in the global arena, without looking at the name. -/
def carve (g : Globals) (name : String) (size : UInt64) : Step (Region × Globals) := do
  let (region, memory) ← g.memory.allocate name size
  return (region, { g with memory })

/-- Allocates a region in the global arena under a name that must be free. -/
def addMemory (g : Globals) (name : String) (size : UInt64) :
    Step (Except Cause (Region × Globals)) :=
  match g.vet name .memory with
  | .error cause => return .error cause
  | .ok () => .ok <$> g.carve name size

/-! ### Look-up -/

/-- The procedure that a name stands for. -/
def procedure? (g : Globals) (name : String) : Option ProcId := g.procedures.get? name

/-- The struct that a name stands for. -/
def struct? (g : Globals) (name : String) : Option StructId := g.structs.get? name

/-- The value of the constant that a name stands for. -/
def constant? (g : Globals) (name : String) : Option Int := g.constants.get? name

/-- The variants of the enum that a name stands for. -/
def enum? (g : Globals) (name : String) : Option (List String) := g.enums.get? name

/-- The region that a name stands for. -/
def memory? (g : Globals) (name : String) : Option Region := g.memory.get? name

end Globals

end StackFront
