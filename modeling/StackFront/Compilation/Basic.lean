import StackFront.Block.Nesting
import StackFront.Compilation.Flags
import StackFront.Compilation.Regions
import StackFront.Diagnostics.Reporter
import StackFront.Names.Globals
import StackFront.Procedure.Basic

/-!
# Compilations

A `Compilation` is everything that is known between two steps of reading a program: the names and
what they stand for, the instructions emitted so far, the place the reader has come to. A parser
drives it, by handing it tokens and instructions and by asking it to define things.

The instructions are of a type `ω` of the parser's choosing. All that is asked of it is which
instructions define a procedure (`Opcode`).

What a detour of the parser replaces, and puts back when it is over, is kept together as the
`Position`; everything else only grows, or is switched to and fro by the parser.

An operation that can be refused yields a `Diagnostic` in its value, next to the compilation as
it stands afterwards: a refusal may have moved the current location, which is where the error is
said to be.
-/

namespace StackFront

/-- **Instructions**, as far as the front end has to know them. -/
class Opcode (ω : Type) where
  /-- The procedure that an instruction defines, if it defines one. -/
  procedure? : ω → Option ProcId

/-- **How a compilation is set up.** -/
structure Settings where
  mode : ReportMode
  color : Bool
  /-- How many instructions to make room for in advance. Room is made on demand in any case. -/
  instructionCapacity : Nat
  syscalls : Nat
  /-- The alignment of every arena, a power of two. -/
  alignment : UInt64
deriving DecidableEq

/-- The settings in force where nothing else is said: the first error ends the process. -/
def Settings.default : Settings where
  mode := .fatal
  color := true
  instructionCapacity := 1024
  syscalls := Names.defaultSyscalls
  alignment := Arena.defaultAlignment

/-- **Where the reader is**: the blocks that are open, the stream it pulls from, the tokens that
come before the rest of that stream, and the location of the last token. -/
structure Position where
  blocks : Nesting
  source : Source
  queue : List Token
  location : Location

/-- **The state of a compilation.** -/
structure Compilation (ω : Type) where
  position : Position
  streams : Streams
  globals : Globals
  types : Hierarchy
  procs : Procedures
  /-- The variables bound outside every procedure. -/
  «variables» : Table String Binding
  /-- The procedure whose body is being read. -/
  current : Option ProcId
  /-- The struct whose body is being read. -/
  owner : Option StructId
  flags : Flags
  regions : Regions
  instructions : Array ω
  strings : Array (List UInt8)
  /-- The procedures found to be needed, once they have been looked for. -/
  used : Option (List ProcId)
  reporter : Reporter
  /-- The bindings in force, innermost last, with the number of stack slots they take. -/
  bindings : Array Binding
  bindingSlots : Nat
  /-- Names with the types that a stack is to have where they are reached. -/
  routes : Array (String × List ValueType)
  /-- Instructions held back until the loop they belong to is opened. -/
  deferred : Array (List ω)

namespace Compilation

variable {ω : Type}

/-- **A compilation that has read nothing.** Its source is an empty stream. -/
def create (settings : Settings) (reporter : Reporter) : Except Fault (Compilation ω) := do
  let globals ← Globals.create settings.syscalls settings.alignment
  let (source, streams) := Streams.empty.openList []
  return {
    position := ⟨.empty, source, [], .unknown⟩
    streams
    globals
    types := .empty
    procs := .empty settings.alignment
    «variables» := ∅
    current := none
    owner := none
    flags := .none
    regions := .empty
    instructions := #[]
    strings := #[]
    used := none
    reporter
    bindings := #[]
    bindingSlots := 0
    routes := #[]
    deferred := #[] }

/-! ### Locations and errors -/

/-- The location of the token that was read last, where errors are said to be. -/
def location (c : Compilation ω) : Location := c.position.location

/-- Makes a location the current one. -/
def moveTo (c : Compilation ω) (l : Location) : Compilation ω :=
  { c with position.location := l }

/-- A cause as an error at the current location. -/
def errorHere (c : Compilation ω) (cause : Cause) : Diagnostic := ⟨c.location, cause⟩

/-- A value that may be refused, as one that is refused at the current location. -/
def locate {α : Type} (c : Compilation ω) : Except Cause α → Except Diagnostic α
  | .ok a => .ok a
  | .error cause => .error (c.errorHere cause)

/-- Reports an error as the mode of the reporter says. -/
def report (c : Compilation ω) (e : Diagnostic) : Step (Aftermath (Compilation ω)) := do
  let after ← c.reporter.report e
  return after.map fun reporter => { c with reporter }

/-- Reports an error without ending the process. -/
def record (c : Compilation ω) (e : Diagnostic) : Step (Compilation ω) := do
  let reporter ← c.reporter.record e
  return { c with reporter }

/-- Takes a value that may be refused; a refusal is reported, and leaves no value. -/
def accept {α : Type} (c : Compilation ω) :
    Except Diagnostic α → Step (Aftermath (Option α × Compilation ω))
  | .ok a => return .goesOn (some a, c)
  | .error e => do
    let after ← c.report e
    return after.map fun c => (none, c)

/-- Switches what a report does. Errors that have been recorded stay. -/
def withMode (c : Compilation ω) (mode : ReportMode) : Compilation ω :=
  { c with reporter := c.reporter.withMode mode }

/-- Hands the recorded errors over and forgets them. -/
def drain (c : Compilation ω) : List Diagnostic × Compilation ω :=
  (c.reporter.errors, { c with reporter := c.reporter.drain.2 })

/-! ### What the parser switches -/

/-- Says how the definitions to come are meant. -/
def setFlags (c : Compilation ω) (flags : Flags) : Compilation ω := { c with flags }

/-- Says which struct the procedures to come are methods of, or that they are methods of none. -/
def setOwner (c : Compilation ω) (owner : Option StructId) : Compilation ω := { c with owner }

/-- Enters a conditional region, whose condition has been worked out by the parser. -/
def enterRegion (c : Compilation ω) (condition : Bool) : Compilation ω :=
  { c with regions := c.regions.enter condition }

/-- Leaves the innermost conditional region; if there is none, it is an error here. -/
def leaveRegion (c : Compilation ω) : Except Diagnostic (Compilation ω) :=
  match c.regions.leave with
  | .ok regions => .ok { c with regions }
  | .error cause => .error (c.errorHere cause)

/-! ### Stacks kept for the parser -/

/-- Puts a binding in force; it takes one slot. -/
def pushBinding (c : Compilation ω) (b : Binding) : Compilation ω :=
  { c with bindings := c.bindings.push b, bindingSlots := c.bindingSlots + 1 }

/-- Keeps the types that a stack is to have where a name is reached. -/
def pushRoute (c : Compilation ω) (name : String) (types : List ValueType) : Compilation ω :=
  { c with routes := c.routes.push (name, types) }

/-- Holds instructions back for the loop that is opened next. -/
def pushDeferred (c : Compilation ω) (ops : List ω) : Compilation ω :=
  { c with deferred := c.deferred.push ops }

end Compilation

end StackFront
