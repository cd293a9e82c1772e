import StackFront.Compilation.Basic

/-!
# Emitting code

Instructions are appended and numbered in the order they are emitted; the number of the last one is
the current instruction pointer. Blocks are opened and closed at that pointer, or at zero before
anything has been emitted.

A closed block leads back to the procedure it is the body of through the instruction it starts at:
that instruction has to have been made, by then, one that defines the procedure.
-/

namespace StackFront.Compilation

variable {ω : Type}

/-! ### Instructions and literals -/

/-- Appends an instruction; the answer is its pointer. -/
def emit (c : Compilation ω) (op : ω) : Step (Nat × Compilation ω) := do
  let ip := c.instructions.size
  Step.note .trace .compilation s!"instruction {ip}"
  return (ip, { c with instructions := c.instructions.push op })

/-- The pointer of the last instruction, if any has been emitted. -/
def ip? (c : Compilation ω) : Option Nat :=
  if c.instructions.isEmpty then none else some (c.instructions.size - 1)

/-- Where a block that is opened or closed now is said to be. -/
def ip (c : Compilation ω) : Nat := c.ip?.getD 0

/-- The instruction at a pointer, if there is one. -/
def instruction? (c : Compilation ω) (ip : Nat) : Option ω := c.instructions[ip]?

/-- Writes another instruction at a pointer. Where there is no instruction nothing can be written.
-/
def patch? (c : Compilation ω) (ip : Nat) (op : ω) : Option (Compilation ω) :=
  if ip < c.instructions.size then
    some { c with instructions := c.instructions.setIfInBounds ip op }
  else
    none

/-- Adds a literal to the data of the program; the answer is its index. -/
def addString (c : Compilation ω) (bytes : List UInt8) : Nat × Compilation ω :=
  (c.strings.size, { c with strings := c.strings.push bytes })

/-! ### Blocks -/

/-- **Opens a block** at the current instruction. -/
def enterBlock (c : Compilation ω) (kind : BlockKind) : Step (Block × Compilation ω) := do
  let (block, blocks) ← c.position.blocks.enter kind c.ip
  return (block, { c with position.blocks := blocks })

/-- **Closes the innermost block** with a closing word, at the current instruction. -/
def leaveBlockBy (c : Compilation ω) (closing : String) :
    Step (Except Diagnostic (Block × Compilation ω)) := do
  match ← c.position.blocks.leaveBy closing c.ip with
  | .ok (block, blocks) => return .ok (block, { c with position.blocks := blocks })
  | .error cause => return .error (c.errorHere cause)

/-- Closes the innermost block with the word that closes blocks of every kind. -/
def leaveBlock (c : Compilation ω) : Step (Except Diagnostic (Block × Compilation ω)) :=
  c.leaveBlockBy "end"

/-- **The procedure a block is the body of.** -/
def procedureOf [Opcode ω] (c : Compilation ω) (block : Block) : Except Diagnostic ProcId :=
  match (c.instruction? block.start).bind Opcode.procedure? with
  | some id => .ok id
  | none => .error (c.errorHere (.notAProcedure block.start))

/-- Gives a procedure its body. The procedure must exist. -/
def setBody (c : Compilation ω) (id : ProcId) (block : Block) : Except Fault (Compilation ω) :=
  (c.procs.get id).map fun _ => { c with procs := c.procs.update id fun p => { p with block } }

end StackFront.Compilation
