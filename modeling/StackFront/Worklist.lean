import StackFront.Fault

/-!
# Work lists

Several parts of the front end follow links until there are none left: down a tree of structs,
along the calls between procedures. They share one loop. A *work list* holds the entries still to
be visited; the entry on top is taken off and visited, which changes a state and puts further
entries on top; the loop ends when the list is empty.

The loop counts its visits down from a bound the caller gives, so that it is total. What is left of
the work list when it stops is part of the answer: the loop has done its work exactly when that rest
is empty (`run_nil`).
-/

namespace StackFront.Worklist

variable {σ α : Type}

/-- **The loop.** `visit` is applied to the state and to the entry on top, and yields the new state
with the entries to put on top, the next one first. At most `bound` entries are visited; the second
component of the answer is the work list that remains. -/
def run (visit : σ → α → Except Fault (σ × List α)) :
    (bound : Nat) → σ → List α → Except Fault (σ × List α)
  | _, s, [] => .ok (s, [])
  | 0, s, work => .ok (s, work)
  | bound + 1, s, x :: work => do
    let (s', new) ← visit s x
    run visit bound s' (new ++ work)

variable (visit : σ → α → Except Fault (σ × List α))

@[simp] theorem run_nil (bound : Nat) (s : σ) : run visit bound s [] = .ok (s, []) := by
  cases bound <;> rfl

theorem run_cons (bound : Nat) (s : σ) (x : α) (work : List α) :
    run visit (bound + 1) s (x :: work) =
      (visit s x >>= fun p => run visit bound p.1 (p.2 ++ work)) := rfl

end StackFront.Worklist
