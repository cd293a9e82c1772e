import StackFront.Compilation.Basic

/-!
# Names in a compilation

Names are given at the place of the token that bears them: the current location moves there first,
so that a refusal is located at the name. Constants and enums are global. Memory and variables
belong to the procedure whose body is being read, or to the program outside every procedure.

A name is looked up in the current procedure first, then among the global ones. A region of a
procedure can be given neither a name that is taken globally nor one that the procedure has given
already; a variable can be bound again, and then stands for the younger binding.
-/

namespace StackFront.Compilation

variable {ω : Type}

/-- Accepts a name that a new global entity can have. -/
def vetName (c : Compilation ω) (t : Token) (entity : Entity) :
    Except Diagnostic Unit × Compilation ω :=
  let c := c.moveTo t.location
  (c.locate (c.globals.vet t.text entity), c)

/-- Takes over new globals, or refuses at the current location. -/
def settle (c : Compilation ω) :
    Except Cause Globals → Except Diagnostic Unit × Compilation ω
  | .ok globals => (.ok (), { c with globals })
  | .error cause => (.error (c.errorHere cause), c)

/-- Gives a number a name that must be free globally. -/
def declareConstant (c : Compilation ω) (t : Token) (value : Int) :
    Step (Except Diagnostic Unit × Compilation ω) := do
  let c := c.moveTo t.location
  return c.settle (← c.globals.addConstant t.text value)

/-- Gives a list of variants a name that must be free globally. -/
def declareEnum (c : Compilation ω) (t : Token) (variants : List String) :
    Step (Except Diagnostic Unit × Compilation ω) := do
  let c := c.moveTo t.location
  return c.settle (← c.globals.addEnum t.text variants)

/-! ### Memory -/

/-- Allocates a region in the arena of a procedure, under a name it has not given before. -/
def allocateIn (c : Compilation ω) (id : ProcId) (name : String) (size : UInt64) :
    Step (Except Diagnostic Region × Compilation ω) := do
  let p ← c.procs.get id
  if p.arena.contains name then
    return (.error (c.errorHere (.nameCollision .memory name)), c)
  else
    let (region, procs) ← c.procs.allocate id name size
    return (.ok region, { c with procs })

/-- Allocates a region in the global arena. The name has been looked at before. -/
def allocateGlobal (c : Compilation ω) (name : String) (size : UInt64) :
    Step (Except Diagnostic Region × Compilation ω) := do
  let (region, globals) ← c.globals.carve name size
  return (.ok region, { c with globals })

/-- **Allocates memory** in the current procedure, or globally outside every procedure. -/
def declareMemory (c : Compilation ω) (t : Token) (size : UInt64) :
    Step (Except Diagnostic Region × Compilation ω) :=
  match c.vetName t .memory with
  | (.error e, c) => return (.error e, c)
  | (.ok (), c) =>
    match c.current with
    | none => c.allocateGlobal t.text size
    | some id => c.allocateIn id t.text size

/-- **The region a name stands for**, in the current procedure or else globally. -/
def findMemory (c : Compilation ω) (name : String) : Except Fault (Option Region) :=
  match c.current with
  | none => .ok (c.globals.memory? name)
  | some id => (c.procs.get id).map fun p => (p.arena.get? name).or (c.globals.memory? name)

/-! ### Variables -/

/-- **Binds a variable** in the current procedure, or outside every procedure. -/
def declareVariable (c : Compilation ω) (b : Binding) : Step (Compilation ω) := do
  Step.note .debug .compilation s!"variable {b.name} : {b.type.text}"
  match c.current with
  | none => return { c with «variables» := c.variables.insert b.name b }
  | some id =>
    let _ ← c.procs.get id
    return { c with
      procs := c.procs.update id fun p => { p with «variables» := p.variables.insert b.name b } }

/-- **The binding a name stands for**, in the current procedure or else outside. -/
def findVariable (c : Compilation ω) (name : String) : Except Fault (Option Binding) :=
  match c.current with
  | none => .ok (c.variables.get? name)
  | some id => (c.procs.get id).map fun p => (p.variables.get? name).or (c.variables.get? name)

end StackFront.Compilation
