import StackFront.Compilation.Program

/-!
# Sessions

A parser drives a compilation through a sequence of commands and keeps the positions it wants to
come back to. `Session` is the compilation together with these positions, each under a name;
`Session.perform` carries one command out and yields what the parser gets to see, a `Reply`.

What can be said of a compilation after any history of commands is said of sessions: a command is a
value, and so is a list of them.

A position is given up when it is restored, and when another one is kept under its name.
-/

namespace StackFront

/-- **What a parser can ask for.** -/
inductive Command (ω : Type) where
  -- diagnostics
  | report (e : Diagnostic)
  | record (e : Diagnostic)
  | withMode (mode : ReportMode)
  | drain
  -- tokens
  | moveTo (l : Location)
  | openStream (tokens : List Token)
  | pull (source : Source)
  | setSource (source : Source)
  | read
  | look
  | enqueue (t : Token)
  | putBack (t : Token)
  -- detours
  | keepPosition (name : String)
  | detourTo (name : String) (source : Source)
  | returnTo (name : String)
  -- code
  | emit (op : ω)
  | patch (ip : Nat) (op : ω)
  | addString (bytes : List UInt8)
  | enterBlock (kind : BlockKind)
  | leaveBlockBy (closing : String)
  | procedureOf (block : Block)
  -- conditional regions
  | enterRegion (condition : Bool)
  | leaveRegion
  -- names
  | vetName (t : Token) (entity : Entity)
  | declareConstant (t : Token) (value : Int)
  | declareEnum (t : Token) (variants : List String)
  | declareMemory (t : Token) (size : UInt64)
  | declareVariable (b : Binding)
  -- structs and procedures
  | setFlags (flags : Flags)
  | setOwner (owner : Option StructId)
  | declareStruct (t : Token) (fields : List Field) (parent : Option StructId)
      (defaults : Table Nat Token)
  | declareProcedure (t : Token) (inputs outputs : List ValueType) (block : Block)
  | enterBody (id : ProcId)
  | leaveBody
  | useProcedure (callee : ProcId)
  -- stacks kept for the parser
  | pushBinding (b : Binding)
  | pushRoute (name : String) (types : List ValueType)
  | pushDeferred (ops : List ω)
  -- the end of the input
  | analyse
  | complete

/-- **What a parser gets to see.** -/
inductive Reply where
  | done
  /-- There is nothing of the kind that was asked for. -/
  | absent
  | refused (e : Diagnostic)
  | token (t : Option Token)
  | source (s : Source)
  | index (n : Nat)
  | block (b : Block)
  | region (r : Region)
  | struct (id : StructId)
  | procedure (id : ProcId)
  | procedure? (id : Option ProcId)
  | procedures (ids : List ProcId)
  | errors (es : List Diagnostic)

/-- The reply to a request that may be refused. -/
def Reply.ofExcept {α : Type} (accepted : α → Reply) : Except Diagnostic α → Reply
  | .ok a => accepted a
  | .error e => .refused e

/-- **A compilation with the positions its parser has kept.** -/
structure Session (ω : Type) where
  compilation : Compilation ω
  kept : Table String Position

namespace Session

variable {ω : Type}

/-- The session of a compilation of which no position has been kept. -/
def start (c : Compilation ω) : Session ω := ⟨c, ∅⟩

/-- The same positions, kept of another state of the compilation. -/
def withCompilation (s : Session ω) (c : Compilation ω) : Session ω := { s with compilation := c }

/-- The reply to a command that yields a value and changes the compilation. -/
def answer {α : Type} (s : Session ω) (reply : α → Reply) (p : α × Compilation ω) :
    Reply × Session ω :=
  (reply p.1, s.withCompilation p.2)

/-- The reply to a command that changes the compilation only if it is accepted. -/
def answerIf {α : Type} (s : Session ω) (reply : α → Reply) :
    Except Diagnostic (α × Compilation ω) → Reply × Session ω
  | .ok p => s.answer reply p
  | .error e => (.refused e, s)

/-- Carries out a command in the mode `collect`, in which no command ends the process. -/
def act [Opcode ω] (s : Session ω) : Command ω → Step (Reply × Session ω)
  | .report e => return s.answer id (.done, ← s.compilation.record e)
  | .record e => return s.answer id (.done, ← s.compilation.record e)
  | .withMode mode => return s.answer id (.done, s.compilation.withMode mode)
  | .drain => return s.answer .errors s.compilation.drain
  | .moveTo l => return s.answer id (.done, s.compilation.moveTo l)
  | .openStream tokens => return s.answer .source (s.compilation.openStream tokens)
  | .pull source => return s.answer .token (s.compilation.pull source)
  | .setSource source => return s.answer id (.done, s.compilation.setSource source)
  | .read => return s.answer .token s.compilation.read
  | .look => return s.answer .token s.compilation.look
  | .enqueue t => return s.answer id (.done, s.compilation.enqueue t)
  | .putBack t => return s.answer id (.done, s.compilation.putBack t)
  | .keepPosition name => do
    let p ← s.compilation.keepPosition
    return (.done, { s with kept := s.kept.insert name p })
  | .detourTo name source => do
    let (p, compilation) ← s.compilation.detourTo source
    return (.done, ⟨compilation, s.kept.insert name p⟩)
  | .returnTo name =>
    match s.kept.get? name with
    | none => return (.absent, s)
    | some p => return (.done, ⟨← s.compilation.returnTo p, s.kept.erase name⟩)
  | .emit op => return s.answer .index (← s.compilation.emit op)
  | .patch ip op =>
    match s.compilation.patch? ip op with
    | none => return (.absent, s)
    | some c => return (.done, s.withCompilation c)
  | .addString bytes => return s.answer .index (s.compilation.addString bytes)
  | .enterBlock kind => return s.answer .block (← s.compilation.enterBlock kind)
  | .leaveBlockBy closing => return s.answerIf .block (← s.compilation.leaveBlockBy closing)
  | .procedureOf block => return (.ofExcept .procedure (s.compilation.procedureOf block), s)
  | .enterRegion condition => return s.answer id (.done, s.compilation.enterRegion condition)
  | .leaveRegion =>
    return s.answerIf (fun _ : Unit => .done) (s.compilation.leaveRegion.map fun c => ((), c))
  | .vetName t entity =>
    return s.answer (.ofExcept fun _ => .done) (s.compilation.vetName t entity)
  | .declareConstant t value =>
    return s.answer (.ofExcept fun _ => .done) (← s.compilation.declareConstant t value)
  | .declareEnum t variants =>
    return s.answer (.ofExcept fun _ => .done) (← s.compilation.declareEnum t variants)
  | .declareMemory t size =>
    return s.answer (.ofExcept .region) (← s.compilation.declareMemory t size)
  | .declareVariable b => return s.answer id (.done, ← s.compilation.declareVariable b)
  | .setFlags flags => return s.answer id (.done, s.compilation.setFlags flags)
  | .setOwner owner => return s.answer id (.done, s.compilation.setOwner owner)
  | .declareStruct t fields parent defaults =>
    return s.answer (.ofExcept .struct) (← s.compilation.declareStruct t fields parent defaults)
  | .declareProcedure t inputs outputs block =>
    return s.answer (.ofExcept .procedure)
      (← s.compilation.declareProcedure t inputs outputs block)
  | .enterBody proc => return s.answer id (.done, ← s.compilation.enterBody proc)
  | .leaveBody => return s.answer .procedure? s.compilation.leaveBody
  | .useProcedure callee => return s.answer id (.done, ← s.compilation.useProcedure callee)
  | .pushBinding b => return s.answer id (.done, s.compilation.pushBinding b)
  | .pushRoute name types => return s.answer id (.done, s.compilation.pushRoute name types)
  | .pushDeferred ops => return s.answer id (.done, s.compilation.pushDeferred ops)
  | .analyse => return s.answer .procedures (← s.compilation.analyse)
  | .complete => return (.ofExcept (fun _ => .done) s.compilation.complete, s)

/-- **Carries out a command.** Only a report can end the process, and does in the mode `fatal`. -/
def perform [Opcode ω] (s : Session ω) : Command ω → Step (Aftermath (Reply × Session ω))
  | .report e => do
    let after ← s.compilation.report e
    return after.map fun c => (.done, s.withCompilation c)
  | command => .goesOn <$> s.act command

/-- Carries out commands one after the other, as long as the process goes on; the answer is the list
of replies with the session as it stands then. -/
def performAll [Opcode ω] (s : Session ω) :
    List (Command ω) → Step (Aftermath (List Reply × Session ω))
  | [] => return .goesOn ([], s)
  | command :: rest => do
    match ← s.perform command with
    | .ends (reply, s) => return .ends ([reply], s)
    | .goesOn (reply, s) =>
      return (← s.performAll rest).map fun p => (reply :: p.1, p.2)

end Session

end StackFront
