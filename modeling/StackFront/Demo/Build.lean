import StackFront.Compilation.Program
import StackFront.Demo.Instruction

/-!
# Building a program by hand

A `Build` drives a compilation as a parser would: it emits instructions and defines things, one
after the other. It stops where something is refused, or where the process ends because of that;
either way the compilation stays as it was left.

`sample` builds the program of the demonstration: a struct with a method that a second struct
inherits, a region of memory, and three procedures of which one is never needed.
-/

namespace StackFront.Demo

/-- **Why a build stops early**: something was refused that it cannot do without, or the process has
ended. -/
inductive Stop where
  | refused
  | ended
deriving DecidableEq

/-- **A build**: steps on a compilation that may stop early. -/
abbrev Build := ExceptT Stop (StateT (Compilation Instruction) Step)

namespace Build

/-- A step that yields a value and changes the compilation. -/
def doing {α : Type} (act : Compilation Instruction → Step (α × Compilation Instruction)) :
    Build α := do
  let (a, c) ← act (← get)
  set c
  return a

/-- Takes a value that may be refused; a refusal is reported, and the build goes on without it. -/
def attempt {α : Type} (r : Except Diagnostic α) : Build (Option α) := do
  match ← (← get).accept r with
  | .goesOn (a, c) =>
    set c
    return a
  | .ends (_, c) =>
    set c
    throw .ended

/-- Takes a value that may be refused; a refusal is reported, and ends the build. -/
def require {α : Type} (r : Except Diagnostic α) : Build α := do
  match ← attempt r with
  | some a => return a
  | none => throw .refused

/-- Emits an instruction; the answer is its pointer. -/
def emit (op : Instruction) : Build Nat := doing fun c => c.emit op

/-- Closes the innermost block. What a refusal means is left to the build. -/
def close : Build (Except Diagnostic Block) := do
  match ← (← get).leaveBlock with
  | .ok (block, c) =>
    set c
    return .ok block
  | .error e => return .error e

/-- Begins a procedure: its first instruction, its block, its definition. -/
def procedure (name : String) (line : Nat) (inputs : List ValueType) : Build ProcId := do
  let ip ← emit (.procedure none)
  let block ← doing fun c => c.enterBlock .procedure
  let id ← require (← doing fun c => c.declareProcedure ⟨name, "demo.stk", line, 1⟩ inputs [] block)
  modify fun c => (c.patch? ip (.procedure (some id))).getD c
  doing fun c => return ((), ← c.enterBody id)
  return id

/-- Ends the procedure that is being read, and gives it its body. -/
def finishProcedure : Build Unit := do
  let _ ← emit .stop
  if let some block ← attempt (← close) then
    if let some id ← attempt ((← get).procedureOf block) then
      doing fun c => return ((), ← c.setBody id block)
  modify fun c => c.leaveBody.2

/-- Emits a call, and records the reference. -/
def call (id : ProcId) : Build Unit := do
  let _ ← emit (.call id)
  doing fun c => return ((), ← c.useProcedure id)

end Build

open Build

/-- **The program of the demonstration.** -/
def sample : Build Unit := do
  let shape ← require (← doing fun c =>
    c.declareStruct ⟨"Shape", "demo.stk", 1, 1⟩ [⟨"width", .int⟩] none ∅)
  let square ← require (← doing fun c =>
    c.declareStruct ⟨"Square", "demo.stk", 2, 1⟩ [] (some shape) ∅)

  modify fun c => c.setOwner (some shape)
  let area ← procedure "area" 3 []
  let _ ← emit (.push 2)
  finishProcedure
  modify fun c => c.setOwner none

  let counter ← require (← doing fun c => c.declareMemory ⟨"counter", "demo.stk", 6, 1⟩ 4)

  let helper ← procedure "helper" 7 [.int]
  let _ ← emit (.address counter.offset)
  call area
  finishProcedure

  let _ ← procedure "unused" 10 []
  call helper
  finishProcedure

  modify fun c => c.setFlags { c.flags with named := true }
  let main ← procedure "main" 13 []
  modify fun c => c.setFlags .none
  let _ ← emit (.push 1)
  let _ ← emit .conditional
  let _ ← doing fun c => c.enterBlock .conditional
  let _ ← emit (.push 3)
  call helper
  let _ ← emit .stop
  let _ ← require (← close)
  finishProcedure

  call main

  let c ← get
  Step.record .debug .program do
    let s ← c.types.get square
    let inherits := s.method? "area" == some area
    return s!"Square inherits area: {inherits}"

end StackFront.Demo
