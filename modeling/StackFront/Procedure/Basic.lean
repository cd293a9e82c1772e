import StackFront.Block.Kind
import StackFront.Memory.Arena
import StackFront.Types.Hierarchy

/-!
# Procedures

A procedure has a signature, a body, and what its body owns: an arena of memory regions, the
variables bound in it, and the procedures it calls. The procedures of a compilation are kept in one
table, next to the set of procedures that code outside every procedure refers to.

A method takes the struct it belongs to as its last argument, on top of those it was given; a static
method takes none and counts as a plain procedure, except that it is found through its struct.

* `get_eq_ok_iff` says what a look-up answers, and `getElem?_update` how a change of one procedure
  shows.
-/

namespace StackFront

/-- **A procedure.** `ip` is the instruction that defines it. -/
structure Procedure where
  id : ProcId
  name : String
  ip : Nat
  inputs : List ValueType
  outputs : List ValueType
  block : Block
  named : Bool
  owner : Option StructId
  arena : Arena
  «variables» : Table String Binding
  calls : List ProcId

/-- The type of the implicit argument of a method. -/
def Procedure.receiver? (p : Procedure) : Option ValueType :=
  p.owner.bind fun _ => p.inputs.getLast?

/-- **What a procedure is defined by.** The inputs are those it was given, without its owner. -/
structure ProcedureDef where
  name : String
  ip : Nat
  inputs : List ValueType
  outputs : List ValueType
  block : Block
  named : Bool
  owner : Option StructId

/-- **The procedures of a compilation**, each at the position of its handle. `topLevel` holds those
that code outside every procedure refers to, and `alignment` is that of every arena made. -/
structure Procedures where
  table : Array Procedure
  topLevel : List ProcId
  alignment : UInt64

namespace Procedures

/-- No procedure has been defined. -/
def empty (alignment : UInt64) : Procedures := ⟨#[], [], alignment⟩

/-- How many procedures have been defined; this is the index of the next handle. -/
def size (ps : Procedures) : Nat := ps.table.size

/-- The procedure of a handle. -/
def get (ps : Procedures) (id : ProcId) : Except Fault Procedure := fetch ps.table id.index

/-- Changes the procedure of a handle. A handle that was never given out changes nothing. -/
def update (ps : Procedures) (id : ProcId) (change : Procedure → Procedure) : Procedures :=
  { ps with table := ps.table.modify id.index change }

/-- A look-up answers with exactly the procedures that were defined. -/
theorem get_eq_ok_iff {ps : Procedures} {id : ProcId} {p : Procedure} :
    ps.get id = .ok p ↔ ps.table[id.index]? = some p :=
  fetch_eq_ok_iff

/-- A change shows at its handle and nowhere else. -/
theorem getElem?_update (ps : Procedures) (id : ProcId) (change : Procedure → Procedure) (i : Nat) :
    (ps.update id change).table[i]? =
      if id.index = i then ps.table[i]?.map change else ps.table[i]? := by
  unfold update
  rw [Array.getElem?_modify]

/-! ### Definition -/

/-- The arguments a procedure takes: those it was given, and its owner on top. -/
def arguments (d : ProcedureDef) : List ValueType :=
  d.inputs ++ (d.owner.map ValueType.struct).toList

/-- The procedure a definition makes, given its arena. -/
def build (ps : Procedures) (d : ProcedureDef) (arena : Arena) : Procedure where
  id := ⟨ps.size⟩
  name := d.name
  ip := d.ip
  inputs := arguments d
  outputs := d.outputs
  block := d.block
  named := d.named
  owner := d.owner
  arena := arena
  «variables» := ∅
  calls := []

/-- Enters a procedure as a method of its owner, if it has one. -/
def register (types : Hierarchy) (d : ProcedureDef) (id : ProcId) : Step Hierarchy :=
  match d.owner with
  | none => return types
  | some owner => types.registerMethod owner d.name id

/-- **Defines a procedure.** One with an owner becomes a method of it and of every struct below. -/
def define (ps : Procedures) (types : Hierarchy) (d : ProcedureDef) :
    Step (ProcId × Procedures × Hierarchy) := do
  let id : ProcId := ⟨ps.size⟩
  let types ← register types d id
  Step.note .debug .procedures
    s!"procedure {d.name} ({id.label}) at {d.ip} [{(arguments d).length} -> {d.outputs.length}]"
  let arena ← Arena.create (.procedure id) ps.alignment
  return (id, { ps with table := ps.table.push (ps.build d arena) }, types)

/-- **Defines a static method** of a struct: a procedure without owner, found through the struct. -/
def defineStatic (ps : Procedures) (types : Hierarchy) (owner : StructId) (d : ProcedureDef) :
    Step (ProcId × Procedures × Hierarchy) := do
  let (id, ps, types) ← ps.define types { d with owner := none }
  let types ← types.registerStatic owner d.name id
  return (id, ps, types)

/-! ### Calls and memory -/

/-- **Records a call.** Without a caller the callee is used by code outside every procedure. The
callee need not exist yet. -/
def addCall (ps : Procedures) (caller : Option ProcId) (callee : ProcId) : Step Procedures := do
  Step.note .trace .procedures
    s!"call {Text.optional ProcId.label caller} -> {callee.label}"
  match caller with
  | none => return { ps with topLevel := ps.topLevel.insert callee }
  | some caller =>
    let _ ← ps.get caller
    return ps.update caller fun p => { p with calls := p.calls.insert callee }

/-- Allocates a region in the arena of a procedure. -/
def allocate (ps : Procedures) (id : ProcId) (name : String) (size : UInt64) :
    Step (Region × Procedures) := do
  let p ← ps.get id
  let (region, arena) ← p.arena.allocate name size
  return (region, ps.update id fun p => { p with arena })

end Procedures

end StackFront
