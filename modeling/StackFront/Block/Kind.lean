/-!
# Blocks

A block is a stretch of instructions with a beginning and, once it has been closed, an end. Its kind
says which construct opened it and thereby which words may close it: `end` closes every block, and
`else` closes the first branch of a conditional, on behalf of the alternative that follows
(`endedBy_iff`).
-/

namespace StackFront

/-- **What opened a block.** -/
inductive BlockKind where
  | conditional | alternative | whileLoop | forLoop | procedure | binding
deriving DecidableEq

namespace BlockKind

/-- The word that opens a block of this kind, as it is written in a program and in messages. -/
def word : BlockKind → String
  | .conditional => "if"
  | .alternative => "else"
  | .whileLoop => "while"
  | .forLoop => "for"
  | .procedure => "proc"
  | .binding => "bind"

/-- The name of the kind in inspected values. -/
def label : BlockKind → String
  | .conditional => "If"
  | .alternative => "Else"
  | .whileLoop => "While"
  | .forLoop => "For"
  | .procedure => "Proc"
  | .binding => "Bind"

/-- Whether a closing word may end a block of this kind. -/
def endedBy (kind : BlockKind) (closing : String) : Bool :=
  closing == "end" || (closing == "else" && kind == .conditional)

theorem endedBy_iff {kind : BlockKind} {closing : String} :
    kind.endedBy closing = true ↔
      closing = "end" ∨ (closing = "else" ∧ kind = .conditional) := by
  simp [endedBy]

end BlockKind

/-- **A block**: its kind, the instruction it starts at, and the one it ends at when it has been
closed. -/
structure Block where
  kind : BlockKind
  start : Nat
  stop : Option Nat
deriving DecidableEq

/-- Whether the block has been closed. -/
def Block.isEnded (b : Block) : Bool := b.stop.isSome

end StackFront
