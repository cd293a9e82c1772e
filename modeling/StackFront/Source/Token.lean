import StackFront.Source.Location

/-!
# Tokens and their streams

A token is a word of the source with the place it was read at. Tokens are pulled from streams, and
several holders may pull from the same stream: a detour keeps hold of the stream it interrupts, and
what one holder pulls is gone for all of them.

The streams of a compilation live in one value, `Streams`, which knows for each of them the tokens
it has not handed out yet. A `Source` is a handle to a stream; copying it gives another handle to
the same stream. `pending` is the view of a stream: `pending_open` says what a new stream holds and
leaves the others alone, `next_fst` and `pending_next` what a pull hands out and takes away, and
`pending_eq_next` that nothing is lost in between. Several tokens are pulled by one pull after the
other (`take_fst`, `pending_take`).
-/

namespace StackFront

/-- **A word of the source**, with its place. -/
structure Token where
  text : String
  location : Location
deriving DecidableEq

/-- **A handle to a stream.** -/
structure Source where
  index : Nat
deriving DecidableEq

/-- The inspected form of a handle: a stream cannot be looked into. -/
def Source.inspect (_ : Source) : String := Text.someFields "TokenSource" []

/-- **The streams opened so far**, each by the tokens it still holds. -/
structure Streams where
  rest : Array (List Token)

namespace Streams

/-- No stream has been opened. -/
def empty : Streams := ⟨#[]⟩

/-- Opens a stream over a list of tokens; the answer is the first handle to it. -/
def openList (s : Streams) (tokens : List Token) : Source × Streams :=
  (⟨s.rest.size⟩, ⟨s.rest.push tokens⟩)

/-- The tokens a stream still holds. A handle that was never opened holds none. -/
def pending (s : Streams) (src : Source) : List Token := s.rest[src.index]?.getD []

/-- Pulls the next token of a stream, if it has one. -/
def next (s : Streams) (src : Source) : Option Token × Streams :=
  match s.pending src with
  | [] => (none, s)
  | t :: ts => (some t, ⟨s.rest.setIfInBounds src.index ts⟩)

/-- Pulls up to `count` tokens of a stream, one after the other, until it has no more. -/
def take (s : Streams) (src : Source) : (count : Nat) → List Token × Streams
  | 0 => ([], s)
  | count + 1 =>
    match s.next src with
    | (none, s) => ([], s)
    | (some t, s) =>
      let (ts, s) := s.take src count
      (t :: ts, s)

/-! ### The view -/

/-- A new stream holds its list, and the streams opened before are as they were. -/
theorem pending_open (s : Streams) (tokens : List Token) (src : Source) :
    (s.openList tokens).2.pending src =
      if src.index = s.rest.size then tokens else s.pending src := by
  unfold openList pending
  rw [Array.getElem?_push]
  split
  · rfl
  · rfl

/-- A pull hands out the head of what is pending. -/
@[simp] theorem next_fst (s : Streams) (src : Source) :
    (s.next src).1 = (s.pending src).head? := by
  unfold next
  cases s.pending src <;> rfl

/-- A pull takes the head of what is pending away, and touches no other stream. -/
theorem pending_next (s : Streams) (src other : Source) :
    (s.next src).2.pending other =
      if other = src then (s.pending src).tail else s.pending other := by
  unfold next
  by_cases h : other = src
  · subst h
    rw [if_pos rfl]
    rcases hp : s.pending other with _ | ⟨t, ts⟩
    · exact hp
    · have hlt : other.index < s.rest.size := by
        refine Nat.lt_of_not_le fun hge => ?_
        simp [pending, Array.getElem?_eq_none hge] at hp
      simp [pending, hlt]
  · rw [if_neg h]
    have hi : src.index ≠ other.index := fun e => h (by cases other; cases src; simp_all)
    rcases s.pending src with _ | ⟨t, ts⟩
    · rfl
    · simp [pending, hi]

/-- A pull moves the head of what is pending out of its stream, and takes nothing from the others. -/
theorem pending_eq_next (s : Streams) (src other : Source) :
    s.pending other =
      (if src = other then (s.next src).1.toList else []) ++ (s.next src).2.pending other := by
  rw [next_fst, pending_next]
  by_cases h : src = other
  · subst h
    rw [if_pos rfl, if_pos rfl]
    cases s.pending src <;> rfl
  · -- the streams are separate, so that the other one is as it was
    rw [if_neg h, if_neg (Ne.symm h)]
    rfl

/-- Nothing is pulled of a stream that has no more. -/
theorem take_of_nil {s : Streams} {src : Source} (h : s.pending src = []) (count : Nat) :
    s.take src count = ([], s) := by
  cases count with
  | zero => rfl
  | succ count => simp [take, next, h]

/-- The first of several pulls is `next`, and the others go on from what it leaves. -/
theorem take_succ_of_cons {s : Streams} {src : Source} {t : Token} {ts : List Token}
    (h : s.pending src = t :: ts) (count : Nat) :
    s.take src (count + 1) =
      (t :: ((s.next src).2.take src count).1, ((s.next src).2.take src count).2) := by
  simp [take, next, h]

/-- **Repeated pulls** hand out what is pending from the front, as far as they go. -/
theorem take_fst (s : Streams) (src : Source) (count : Nat) :
    (s.take src count).1 = (s.pending src).take count := by
  induction count generalizing s with
  | zero => rfl
  | succ count ih =>
    rcases h : s.pending src with _ | ⟨t, ts⟩
    · rw [take_of_nil h]
      rfl
    · rw [take_succ_of_cons h, ih, pending_next, if_pos rfl, h]
      rfl

/-- Repeated pulls leave the rest in the stream, and touch no other. -/
theorem pending_take (s : Streams) (src other : Source) (count : Nat) :
    (s.take src count).2.pending other =
      if other = src then (s.pending src).drop count else s.pending other := by
  induction count generalizing s with
  | zero =>
    split
    · next h => exact congrArg s.pending h
    · rfl
  | succ count ih =>
    rcases h : s.pending src with _ | ⟨t, ts⟩
    · -- a stream that has no more is as it was
      rw [take_of_nil h]
      split
      · next e => rw [e, h, List.drop_nil]
      · rfl
    · rw [take_succ_of_cons h, ih, pending_next, pending_next, if_pos rfl, h]
      split <;> rfl

/-- A pull closes no stream. -/
@[simp] theorem size_next (s : Streams) (src : Source) : (s.next src).2.rest.size = s.rest.size := by
  unfold next
  rcases s.pending src with _ | ⟨t, ts⟩
  · rfl
  · exact Array.size_setIfInBounds

end Streams

end StackFront
