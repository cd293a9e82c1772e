import StackFront.Demo.Build

/-!
# The listing of the demonstration

What the demonstration prints of the program it has built: the number of instructions, the
instructions themselves if they are asked for, a line for each procedure, and the size of the global
arena. Numbers are set flush right and names flush left, in columns of a fixed width.
-/

namespace StackFront.Demo

/-- Fills a column up from the left. What is wider than the column is not cut. -/
def flushRight (width : Nat) (s : String) : String :=
  "".pushn ' ' (width - s.length) ++ s

/-- Fills a column up from the right. What is wider than the column is not cut. -/
def flushLeft (width : Nat) (s : String) : String :=
  s.pushn ' ' (width - s.length)

/-- The line of an instruction, with its pointer. -/
def instructionLine (ip : Nat) (op : Instruction) : String :=
  s!"  {flushRight 4 (toString ip)}  {op.text}\n"

/-- The line of a procedure: its name, whether it is needed, where it is defined and where its body
runs from and to. -/
def procedureLine (used : List ProcId) (p : Procedure) : String :=
  let state := if used.contains p.id then "used" else "dead"
  let stop := (p.block.stop.map toString).getD "?"
  s!"  {flushLeft 8 p.name} {state} ip={p.ip} body={p.block.start}..{stop}\n"

/-- **The listing of a program**, with its instructions if `dump` says so. -/
def listing (dump : Bool) (p : Program Instruction) : String :=
  s!"instructions: {p.instructions.size}\n"
    ++ (if dump then
          String.join (p.instructions.toList.zipIdx.map fun e => instructionLine e.2 e.1)
        else "")
    ++ String.join (p.procs.table.toList.map (procedureLine p.used))
    ++ s!"global memory: {p.globals.memory.reserved.toNat} bytes\n"

end StackFront.Demo
