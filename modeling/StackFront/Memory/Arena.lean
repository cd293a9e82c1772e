import StackFront.Handle
import StackFront.Memory.Word
import StackFront.Step
import StackFront.Table

/-!
# Memory arenas

A region is a named stretch of bytes inside an arena; there is one arena for the whole program and
one for each procedure. An arena hands regions out one after the other: a region begins where the
reserved part ends, and the reserved part then grows by the size of the region, rounded up to the
alignment of the arena. Nothing is ever given back. A name that is allocated again stands for the
younger region from then on; the older one keeps its bytes.

* `result_allocate` gives the value of an allocation without its log.
-/

namespace StackFront

/-- **Who owns an arena**: the program as a whole, or a procedure. -/
inductive ArenaOwner where
  | global
  | procedure (id : ProcId)
deriving DecidableEq

/-- The form of the owner in log records. -/
def ArenaOwner.label : ArenaOwner → String
  | .global => "Global"
  | .procedure id => Text.applied "Procedure" id.label

/-- **A region**: its name, where it begins, and the owner of its arena. -/
structure Region where
  name : String
  offset : UInt64
  owner : ArenaOwner
deriving DecidableEq

/-- **An arena.** `reserved` is the number of bytes handed out so far, and `regions` the youngest
region of each name. -/
structure Arena where
  owner : ArenaOwner
  alignment : UInt64
  reserved : UInt64
  regions : Table String Region

namespace Arena

/-- The alignment of arenas where nothing else is said. -/
def defaultAlignment : UInt64 := 8

/-- An empty arena. Its alignment must be a power of two. -/
def create (owner : ArenaOwner) (alignment : UInt64) : Except Fault Arena :=
  if Word.isPowerOfTwo alignment then
    .ok ⟨owner, alignment, 0, ∅⟩
  else
    .error .arenaAlignment

/-- The youngest region of a name. -/
def get? (a : Arena) (name : String) : Option Region := a.regions.get? name

/-- Whether a region of the name has been handed out. -/
def contains (a : Arena) (name : String) : Bool := a.regions.contains name

/-- Where the reserved part of the arena ends once a further `size` bytes have been handed out. -/
def advance (a : Arena) (size : UInt64) : Except Fault UInt64 := do
  Word.add a.reserved (← Word.roundUp size a.alignment)

/-- The region that is handed out next: it begins where the reserved part ends. -/
def nextRegion (a : Arena) (name : String) : Region := ⟨name, a.reserved, a.owner⟩

/-- **Allocation.** The next region, and the arena in which it is handed out. -/
def allocate (a : Arena) (name : String) (size : UInt64) : Step (Region × Arena) := do
  let reserved ← a.advance size
  Step.note .debug .memory
    s!"memory {name} at {a.reserved.toNat} ({size.toNat} bytes, {a.owner.label})"
  return (a.nextRegion name,
    { a with reserved, regions := a.regions.insert name (a.nextRegion name) })

/-- An allocation fails only where its bytes do not fit. -/
theorem result_allocate (a : Arena) (name : String) (size : UInt64) (f : Log.Filter) :
    ((a.allocate name size).run f).result = (a.advance size).map fun reserved =>
      (a.nextRegion name,
        { a with reserved, regions := a.regions.insert name (a.nextRegion name) }) := by
  unfold allocate
  rw [Step.result_bind, Step.result_monadLift]
  rcases a.advance size with e | r
  · rfl
  · simp [Except.map]

end Arena

end StackFront
