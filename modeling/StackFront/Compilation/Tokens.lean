import StackFront.Compilation.Basic

/-!
# Reading tokens

The tokens that are still to be read are those of the queue, followed by what the stream of the
current source holds. Reading a token moves the current location to it; looking at it does not.
To be looked at, a token may have to be pulled from the stream, and then stands in the queue: what
is queued afterwards comes behind it.

A detour reads from another source and comes back to a `Position` kept earlier. Streams are shared,
so tokens that a detour pulls from the interrupted stream are gone when it comes back.

* `pending` lists what is still to be read, and `pending_read` says that reading takes its
  head.
-/

namespace StackFront.Compilation

variable {ω : Type}

/-- **The tokens still to be read.** -/
def pending (c : Compilation ω) : List Token :=
  c.position.queue ++ c.streams.pending c.position.source

/-- Opens a stream over a list of tokens, without reading from it. -/
def openStream (c : Compilation ω) (tokens : List Token) : Source × Compilation ω :=
  ((c.streams.openList tokens).1, { c with streams := (c.streams.openList tokens).2 })

/-- Pulls a token from a stream by a handle of one's own, past the reader. -/
def pull (c : Compilation ω) (source : Source) : Option Token × Compilation ω :=
  ((c.streams.next source).1, { c with streams := (c.streams.next source).2 })

/-- Reads from another source from now on. The queue comes first as before. -/
def setSource (c : Compilation ω) (source : Source) : Compilation ω :=
  { c with position.source := source }

/-- **Reads a token**: the first of the queue, or else the next of the source. The current location
moves to it. -/
def read (c : Compilation ω) : Option Token × Compilation ω :=
  match c.position.queue with
  | t :: queue =>
    (some t, { c with position := { c.position with queue, location := t.location } })
  | [] =>
    match c.pull c.position.source with
    | (some t, c) => (some t, c.moveTo t.location)
    | (none, c) => (none, c)

/-- **Looks at the token that is read next.** One that is pulled for this is queued; the current
location stays. -/
def look (c : Compilation ω) : Option Token × Compilation ω :=
  match c.position.queue with
  | t :: _ => (some t, c)
  | [] =>
    match c.pull c.position.source with
    | (some t, c) => (some t, { c with position.queue := [t] })
    | (none, c) => (none, c)

/-- Has a token read after those in the queue, before anything left in the source. -/
def enqueue (c : Compilation ω) (t : Token) : Compilation ω :=
  { c with position.queue := c.position.queue ++ [t] }

/-- Has a token read before anything else. -/
def putBack (c : Compilation ω) (t : Token) : Compilation ω :=
  { c with position.queue := t :: c.position.queue }

/-! ### Detours -/

/-- The position, to come back to. The stream of its source is not copied. -/
def keepPosition (c : Compilation ω) : Step Position := do
  Step.note .trace .compilation
    s!"snapshot at {c.location.text} ({c.position.blocks.depth} open blocks)"
  return c.position

/-- Comes back to a position. Everything else stays what the detour made of it. -/
def returnTo (c : Compilation ω) (p : Position) : Step (Compilation ω) := do
  Step.note .trace .compilation s!"restore to {p.location.text}"
  return { c with position := p }

/-- Reads from another source in place of the current one and of the queue. The position that was
left is to be restored when the detour is over. -/
def detourTo (c : Compilation ω) (source : Source) : Step (Position × Compilation ω) := do
  let p ← c.keepPosition
  return (p, { c with position := { c.position with source, queue := [] } })

/-! ### The view -/

/-- Reading hands out the head of what is pending. -/
theorem read_fst (c : Compilation ω) : c.read.1 = c.pending.head? := by
  unfold read pending pull
  rcases hq : c.position.queue with _ | ⟨t, ts⟩
  · simp only [List.nil_append, ← Streams.next_fst]
    rcases hn : c.streams.next c.position.source with ⟨_ | t, s⟩ <;> rfl
  · rfl

/-- Reading takes the head of what is pending away. -/
theorem pending_read (c : Compilation ω) : c.read.2.pending = c.pending.tail := by
  unfold read pending pull
  rcases hq : c.position.queue with _ | ⟨t, ts⟩
  · have h := Streams.pending_next c.streams c.position.source c.position.source
    rw [if_pos rfl] at h
    rw [List.nil_append, ← h]
    rcases hn : c.streams.next c.position.source with ⟨_ | t, s⟩ <;> simp [hq, moveTo]
  · simp

end StackFront.Compilation
