import StackFront.Compilation.Scopes
import StackFront.Procedure.CallGraph

/-!
# Structs and procedures in a compilation

A struct is defined under a global name. A procedure is too, unless a struct is being read: then it
is a method of that struct, static or not as the flags say, and is found through the struct and not
through the global names. A method may bear a name that is taken globally, but not a reserved one.

References to procedures are recorded for whoever refers: the procedure whose body is being read, or
the program outside every procedure.
-/

namespace StackFront.Compilation

variable {ω : Type}

/-- **Defines a struct**, unpackable if the flags say so. -/
def declareStruct (c : Compilation ω) (t : Token) (fields : List Field) (parent : Option StructId)
    (defaults : Table Nat Token) : Step (Except Diagnostic StructId × Compilation ω) :=
  match c.vetName t .struct with
  | (.error e, c) => return (.error e, c)
  | (.ok (), c) => do
    let (id, types) ← c.types.define ⟨t.text, fields, parent, defaults, c.flags.unpack⟩
    return (.ok id, { c with types, globals := c.globals.enterStruct t.text id })

/-! ### Procedures -/

/-- Accepts a name that a new procedure can have where the reader is: as a method it must not be
reserved, as a procedure it must be free. -/
def vetProcedureName (c : Compilation ω) (name : String) : Except Cause Unit :=
  match c.owner with
  | none => c.globals.vet name .procedure
  | some _ =>
    if c.globals.reserves name then .error (.reservedName .method name) else .ok ()

/-- What a procedure is defined by where the reader is. -/
def procedureDef (c : Compilation ω) (name : String) (inputs outputs : List ValueType)
    (block : Block) : ProcedureDef where
  name := name
  ip := block.start
  inputs := inputs
  outputs := outputs
  block := block
  named := c.flags.named
  owner := c.owner

/-- Enters a procedure under a name that has been accepted: as a static method, as a method, or
under its global name. -/
def commitProcedure (c : Compilation ω) (d : ProcedureDef) : Step (ProcId × Compilation ω) :=
  match c.owner with
  | none => do
    let (id, procs, types) ← c.procs.define c.types d
    return (id, { c with procs, types, globals := c.globals.enterProcedure d.name id })
  | some owner => do
    let (id, procs, types) ←
      if c.flags.static then c.procs.defineStatic c.types owner d else c.procs.define c.types d
    return (id, { c with procs, types })

/-- **Defines a procedure** with a block as its body. -/
def declareProcedure (c : Compilation ω) (t : Token) (inputs outputs : List ValueType)
    (block : Block) : Step (Except Diagnostic ProcId × Compilation ω) :=
  let c := c.moveTo t.location
  match c.vetProcedureName t.text with
  | .error cause => return (.error (c.errorHere cause), c)
  | .ok () => do
    let (id, c) ← c.commitProcedure (c.procedureDef t.text inputs outputs block)
    return (.ok id, c)

/-! ### The current procedure -/

/-- Starts reading the body of a procedure. The handle is looked up only for the log. -/
def enterBody (c : Compilation ω) (id : ProcId) : Step (Compilation ω) := do
  Step.record .trace .compilation do
    let p ← c.procs.get id
    return s!"enter {p.name}"
  return { c with current := some id }

/-- Stops reading the body of a procedure; the answer is the procedure that was being read. -/
def leaveBody (c : Compilation ω) : Option ProcId × Compilation ω :=
  (c.current, { c with current := none })

/-- Records a reference to a procedure from where the reader is. -/
def useProcedure (c : Compilation ω) (callee : ProcId) : Step (Compilation ω) := do
  let procs ← c.procs.addCall c.current callee
  return { c with procs }

end StackFront.Compilation
