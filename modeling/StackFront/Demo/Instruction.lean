import StackFront.Compilation.Basic

/-!
# Instructions of the demonstration

A handful of instructions, enough for a program with methods, memory, calls and a conditional.
-/

namespace StackFront.Demo

/-- **An instruction.** The one that begins a procedure is emitted before the procedure has a
handle, and completed afterwards. -/
inductive Instruction where
  | procedure (id : Option ProcId)
  | push (value : Int)
  | address (offset : UInt64)
  | call (id : ProcId)
  | conditional
  | stop

/-- An instruction defines a procedure once the handle has been written into it. -/
instance : Opcode Instruction where
  procedure?
    | .procedure id => id
    | _ => none

/-- The form of an instruction in the listing. -/
def Instruction.text : Instruction → String
  | .procedure (some id) => s!"proc #{id.index}"
  | .procedure none => "proc ?"
  | .push value => s!"push {value}"
  | .address offset => s!"mem +{offset.toNat}"
  | .call id => s!"call #{id.index}"
  | .conditional => "if"
  | .stop => "end"

end StackFront.Demo
