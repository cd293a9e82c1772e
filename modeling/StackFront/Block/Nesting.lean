import StackFront.Diagnostics.Basic
import StackFront.Step

/-!
# Block nesting

`Nesting` is the stack of blocks that are open. Opening a block puts it on top; a closing word takes
the innermost block off, provided it may end a block of that kind, and gives it its end. A close
that fails yields no new nesting, so that it cannot have changed the old one.

* `result_enter` and `result_leaveBy` give the value of the two operations without their log;
  the second through `refusal`, the reason for which a closing word is turned down.
-/

namespace StackFront

/-- **The blocks that are open**, innermost first. -/
structure Nesting where
  blocks : List Block
deriving DecidableEq

namespace Nesting

/-- No block is open. -/
def empty : Nesting := ⟨[]⟩

/-- The open blocks in the order in which they were opened. -/
def outermostFirst (n : Nesting) : List Block := n.blocks.reverse

/-- How many blocks are open. -/
def depth (n : Nesting) : Nat := n.blocks.length

/-- The block that a closing word is meant for, if any is open. -/
def innermost? (n : Nesting) : Option Block := n.blocks.head?

/-- Opens a block of the given kind at an instruction. -/
def enter (n : Nesting) (kind : BlockKind) (ip : Nat) : Step (Block × Nesting) := do
  Step.note .trace .blocks s!"open {kind.word} at {ip}"
  return (⟨kind, ip, none⟩, ⟨⟨kind, ip, none⟩ :: n.blocks⟩)

/-- Closes the innermost block with a closing word, ending it at an instruction. -/
def leaveBy (n : Nesting) (closing : String) (ip : Nat) :
    Step (Except Cause (Block × Nesting)) :=
  match n.blocks with
  | [] => return .error (.unexpectedClose closing)
  | top :: rest =>
    if top.kind.endedBy closing then do
      Step.note .trace .blocks s!"close {top.kind.word} {top.start}..{ip}"
      return .ok ({ top with stop := some ip }, ⟨rest⟩)
    else
      return .error (.blockMismatch closing top.kind)

/-- Closes the innermost block with the word that closes blocks of every kind. -/
def leave (n : Nesting) (ip : Nat) : Step (Except Cause (Block × Nesting)) :=
  n.leaveBy "end" ip

/-- Accepts the nesting only if no block is open; otherwise the innermost one is to blame. -/
def allEnded (n : Nesting) : Except Cause Unit :=
  match n.blocks with
  | [] => .ok ()
  | top :: _ => .error (.unclosedBlock top.kind top.start)

/-! ### The operations without their log -/

/-- Why a closing word is turned down, if it is. -/
def refusal (n : Nesting) (closing : String) : Option Cause :=
  match n.innermost? with
  | none => some (.unexpectedClose closing)
  | some top =>
    if top.kind.endedBy closing then none else some (.blockMismatch closing top.kind)

@[simp] theorem result_enter (n : Nesting) (kind : BlockKind) (ip : Nat) (f : Log.Filter) :
    ((n.enter kind ip).run f).result =
      .ok (⟨kind, ip, none⟩, ⟨⟨kind, ip, none⟩ :: n.blocks⟩) := by
  simp [enter]

theorem allEnded_eq_ok_iff {n : Nesting} : n.allEnded = .ok () ↔ n.blocks = [] := by
  rcases n with ⟨_ | ⟨top, rest⟩⟩ <;> simp [allEnded]

/-- A closing word that is not turned down takes the innermost block off and ends it. -/
theorem result_leaveBy (n : Nesting) (closing : String) (ip : Nat) (f : Log.Filter) :
    ((n.leaveBy closing ip).run f).result = .ok
      (match n.refusal closing, n.blocks with
        | none, top :: rest => .ok ({ top with stop := some ip }, ⟨rest⟩)
        | none, [] => .error (.unexpectedClose closing)
        | some cause, _ => .error cause) := by
  rcases n with ⟨_ | ⟨top, rest⟩⟩
  · rfl
  · by_cases h : top.kind.endedBy closing = true
    · simp [leaveBy, refusal, innermost?, h]
    · simp [leaveBy, refusal, innermost?, h]

end Nesting

end StackFront
