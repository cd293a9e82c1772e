import StackFront.Block.Kind
import StackFront.Source.Location

/-!
# Compile errors

A compile error is what the compiled program is to blame for: a `Cause`, and the source location
that was current when it was found. Its written form is one line, `Error <location>: <cause>`.

A cause is said in two ways. `Cause.message` is the sentence a user reads; `Cause.inspect` shows the
value as it was built.
-/

namespace StackFront

/-- **What a name can stand for.** -/
inductive Entity where
  | procedure | memory | constant | struct | enum | method | variable
deriving DecidableEq

namespace Entity

/-- The word for the kind of thing in messages. -/
def word : Entity → String
  | .procedure => "procedure"
  | .memory => "memory"
  | .constant => "constant"
  | .struct => "structure"
  | .enum => "enum"
  | .method => "method"
  | .variable => "variable"

/-- The name of the kind in inspected values. -/
def label : Entity → String
  | .procedure => "Procedure"
  | .memory => "Memory"
  | .constant => "Constant"
  | .struct => "Struct"
  | .enum => "Enum"
  | .method => "Method"
  | .variable => "Variable"

end Entity

/-- **Why a program is refused.** -/
inductive Cause where
  /-- The name already stands for something else. -/
  | nameCollision (entity : Entity) (name : String)
  /-- The name is a keyword or a built-in word. -/
  | reservedName (entity : Entity) (name : String)
  /-- A closing word where no block is open. -/
  | unexpectedClose (closing : String)
  /-- A closing word that cannot end the innermost block. -/
  | blockMismatch (closing : String) (found : BlockKind)
  /-- The input ended inside a block. -/
  | unclosedBlock (kind : BlockKind) (start : Nat)
  /-- A conditional region was left where none had been entered. -/
  | unbalancedRegion
  /-- The input ended inside conditional regions. -/
  | unclosedRegions (count : Nat)
  /-- The name stands for nothing. -/
  | undefinedReference (entity : Entity) (name : String)
  /-- The instruction a block starts at defines no procedure. -/
  | notAProcedure (ip : Nat)
deriving DecidableEq

namespace Cause

/-- **The sentence a user reads.** -/
def message : Cause → String
  | nameCollision entity name => s!"name for {entity.word} \"{name}\" is already taken"
  | reservedName entity name => s!"name for {entity.word} \"{name}\" is unavailable"
  | unexpectedClose closing => s!"\"{closing}\" without an open block"
  | blockMismatch closing found => s!"\"{closing}\" cannot close a {found.word} block"
  | unclosedBlock kind start => s!"unclosed {kind.word} block opened at instruction {start}"
  | unbalancedRegion => "conditional compilation region closed without being opened"
  | unclosedRegions count => s!"{count} conditional compilation region(s) left open"
  | undefinedReference entity name => s!"undefined {entity.word} \"{name}\""
  | notAProcedure ip => s!"instruction {ip} does not define a procedure"

/-- The name of the cause in inspected values. -/
def label : Cause → String
  | nameCollision .. => "NameCollision"
  | reservedName .. => "ReservedName"
  | unexpectedClose .. => "UnexpectedClose"
  | blockMismatch .. => "BlockMismatch"
  | unclosedBlock .. => "UnclosedBlock"
  | unbalancedRegion => "UnbalancedCompileIf"
  | unclosedRegions .. => "UnclosedCompileIf"
  | undefinedReference .. => "UndefinedReference"
  | notAProcedure .. => "NotAProcedureBlock"

/-- What a cause was built from, with the names under which inspected values show it. -/
def parts : Cause → List (String × String)
  | nameCollision entity name => [("kind", entity.label), ("name", Text.quoted name)]
  | reservedName entity name => [("kind", entity.label), ("name", Text.quoted name)]
  | unexpectedClose closing => [("closing", Text.quoted closing)]
  | blockMismatch closing found => [("closing", Text.quoted closing), ("found", found.label)]
  | unclosedBlock kind start => [("kind", kind.label), ("start", toString start)]
  | unbalancedRegion => []
  | unclosedRegions count => [("count", toString count)]
  | undefinedReference entity name => [("kind", entity.label), ("name", Text.quoted name)]
  | notAProcedure ip => [("ip", toString ip)]

/-- The inspected form. A cause that was built from nothing is shown by its name alone. -/
def inspect (c : Cause) : String :=
  if c.parts.isEmpty then c.label else Text.fields c.label c.parts

end Cause

/-- **A cause with the location it was found at.** -/
structure Diagnostic where
  location : Location
  cause : Cause
deriving DecidableEq

namespace Diagnostic

/-- **The line a user reads**: where the error is, and what it is. -/
def text (e : Diagnostic) : String := s!"Error {e.location.text}: {e.cause.message}"

/-- The inspected form, of the location and the cause. -/
def inspect (e : Diagnostic) : String :=
  Text.fields "CompileError" [("location", e.location.inspect), ("kind", e.cause.inspect)]

end Diagnostic

end StackFront
