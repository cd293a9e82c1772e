import StackFront.Compilation.Code
import StackFront.Compilation.Definitions
import StackFront.Compilation.Tokens

/-!
# Finished programs

At the end of its input a compilation is handed over as a `Program`, provided that no block and no
conditional region is left open. The procedures that the program needs are found on the way:
everything that top-level code leads to.
-/

namespace StackFront

/-- **What a backend takes over.** -/
structure Program (ω : Type) where
  instructions : Array ω
  globals : Globals
  types : Hierarchy
  procs : Procedures
  used : List ProcId
  strings : Array (List UInt8)

namespace Compilation

variable {ω : Type}

/-- **Finds the procedures that are needed**, and keeps them as the result of the analysis. -/
def analyse (c : Compilation ω) : Step (List ProcId × Compilation ω) := do
  let used ← c.procs.closure c.procs.topLevel
  Step.note .info .compilation s!"{used.length} of {c.procs.size} procedures are used"
  return (used, { c with used := some used })

/-- Accepts the end of the input: no block is open, and then no conditional region. -/
def complete (c : Compilation ω) : Except Diagnostic Unit :=
  c.locate (c.position.blocks.allEnded >>= fun _ => c.regions.allLeft)

/-- **Hands the compilation over**, or says why that is too early. -/
def handOver (c : Compilation ω) : Step (Except Diagnostic (Program ω)) :=
  match c.complete with
  | .error e => return .error e
  | .ok () => do
    let (used, _) ← c.analyse
    return .ok {
      instructions := c.instructions
      globals := c.globals
      types := c.types
      procs := c.procs
      used
      strings := c.strings }

end Compilation

end StackFront
