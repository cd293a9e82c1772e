import Mathlib.Data.List.Nodup
import StackFront.Worklist

/-!
# Running work lists to their end

A work list that is run with a bound may stop too early. Two facts keep the walks of the front end
from doing so: an order of visits that is known beforehand tells how many there are, and a list of
distinct entries of a table is no longer than the table.

* `Takes` says which entries the loop takes off, and in which order. `Takes.run_eq` says that a bound
  which admits them all makes no difference.
* `Visits` is that order when what a visit adds depends on the entry alone, and `Takes.of_visits` lets
  the loop follow it.
* `run_keeps` is induction along a run of the loop, in case nothing is known of what is to come.
* `Ends` is the loop without a bound, a relation, since such a loop need not come to an end.
  `Ends.of_run` says that a bound which was enough makes no difference.
* `length_le_of_nodup` bounds the number of visits.
-/

namespace StackFront

namespace Worklist

variable {σ α : Type}

/-- **The order of visits**: `Visits next work order` says that a work list is taken off in `order`
if a visit to `x` puts the entries `next x` on top. -/
inductive Visits (next : α → List α) : List α → List α → Prop where
  | nil : Visits next [] []
  | cons {x : α} {work order : List α} :
      Visits next (next x ++ work) order → Visits next (x :: work) (x :: order)

/-- What is further down in a work list is visited after what is on top. -/
theorem Visits.append {next : α → List α} {work work' order order' : List α}
    (h : Visits next work order) (h' : Visits next work' order') :
    Visits next (work ++ work') (order ++ order') := by
  induction h with
  | nil => exact h'
  | cons _ ih =>
    rw [List.append_assoc] at ih
    exact .cons ih

/-- **What the loop takes off.** Without a bound, it takes the entries of `order` off one after the
other, and has come to its end then, in the state that stands last. -/
inductive Takes (visit : σ → α → Except Fault (σ × List α)) : σ → List α → List α → σ → Prop where
  | done {s : σ} : Takes visit s [] [] s
  | step {s s' s'' : σ} {x : α} {new work order : List α} :
      visit s x = .ok (s', new) → Takes visit s' (new ++ work) order s'' →
        Takes visit s (x :: work) (x :: order) s''

/-- The loop takes the same entries off whenever it is run. -/
theorem Takes.unique {visit : σ → α → Except Fault (σ × List α)} {s s' s'' : σ}
    {work order order' : List α} (h : Takes visit s work order s')
    (h' : Takes visit s work order' s'') : order' = order ∧ s'' = s' := by
  induction h generalizing order' with
  | done =>
    cases h'
    exact ⟨rfl, rfl⟩
  | step hx _ ih =>
    cases h' with
    | step hx' hrest =>
      obtain ⟨rfl, rfl⟩ := Prod.mk.inj (Except.ok.inj (hx.symm.trans hx'))
      obtain ⟨rfl, rfl⟩ := ih hrest
      exact ⟨rfl, rfl⟩

/-- **A bound that admits all visits** makes no difference. -/
theorem Takes.run_eq {visit : σ → α → Except Fault (σ × List α)} {s s' : σ} {work order : List α}
    (h : Takes visit s work order s') {bound : Nat} (hb : order.length ≤ bound) :
    run visit bound s work = .ok (s', []) := by
  induction h generalizing bound with
  | done => exact run_nil visit bound _
  | step hx _ ih =>
    obtain ⟨bound, rfl⟩ : ∃ n, bound = n + 1 :=
      ⟨bound - 1, by rw [List.length_cons] at hb; omega⟩
    rw [run_cons, hx, ok_bind]
    exact ih (Nat.le_of_succ_le_succ hb)

/-- **Walking along an order of visits.** `P` holds of every state that is met and says enough for a
visit to succeed. -/
theorem Takes.of_visits {visit : σ → α → Except Fault (σ × List α)} {next : α → List α}
    {act : σ → α → σ} {P : σ → Prop} {work order : List α} (h : Visits next work order)
    (hv : ∀ s, P s → ∀ x ∈ order, visit s x = .ok (act s x, next x) ∧ P (act s x)) {s : σ}
    (hs : P s) : Takes visit s work order (order.foldl act s) := by
  induction h generalizing s with
  | nil => exact .done
  | @cons x work order _ ih =>
    obtain ⟨hx, hs'⟩ := hv s hs x List.mem_cons_self
    exact .step hx (ih (fun s hs y hy => hv s hs y (List.mem_cons_of_mem x hy)) hs')

/-- **What every visit keeps, the loop keeps**, wherever its bound stops it. -/
theorem run_keeps {visit : σ → α → Except Fault (σ × List α)} {P : σ → Prop}
    (hv : ∀ s x p, P s → visit s x = .ok p → P p.1) {bound : Nat} {s : σ} {work : List α}
    {p : σ × List α} (h : run visit bound s work = .ok p) (hs : P s) : P p.1 := by
  induction bound generalizing s work with
  | zero =>
    cases work <;> cases h <;> exact hs
  | succ bound ih =>
    rcases work with _ | ⟨x, work⟩
    · cases h
      exact hs
    · rw [run_cons] at h
      rcases hx : visit s x with e | q
      · rw [hx] at h
        cases h
      · rw [hx, ok_bind] at h
        exact ih h (hv s x q hs hx)

/-- **The loop without a bound**: entries are taken off until none is left, which yields the state as it
is then, or until a visit fails. -/
inductive Ends (visit : σ → α → Except Fault (σ × List α)) : σ → List α → Except Fault σ → Prop where
  | done {s : σ} : Ends visit s [] (.ok s)
  | fault {s : σ} {x : α} {work : List α} {e : Fault} :
      visit s x = .error e → Ends visit s (x :: work) (.error e)
  | step {s s' : σ} {x : α} {new work : List α} {answer : Except Fault σ} :
      visit s x = .ok (s', new) → Ends visit s' (new ++ work) answer →
        Ends visit s (x :: work) answer

/-- The loop ends in one way at most. -/
theorem Ends.unique {visit : σ → α → Except Fault (σ × List α)} {s : σ} {work : List α}
    {answer answer' : Except Fault σ} (h : Ends visit s work answer)
    (h' : Ends visit s work answer') : answer = answer' := by
  induction h with
  | done =>
    cases h'
    rfl
  | fault hx =>
    cases h' with
    | fault hx' => rw [Except.error.inj (hx.symm.trans hx')]
    | step hx' => cases hx.symm.trans hx'
  | step hx _ ih =>
    cases h' with
    | fault hx' => cases hx.symm.trans hx'
    | step hx' hrest =>
      obtain ⟨rfl, rfl⟩ := Prod.mk.inj (Except.ok.inj (hx.symm.trans hx'))
      exact ih hrest

/-- **A loop that has left nothing undone** ends in the same way without its bound. -/
theorem Ends.of_run {visit : σ → α → Except Fault (σ × List α)} {bound : Nat} {s : σ}
    {work : List α} {answer : Except Fault σ}
    (h : run visit bound s work = answer.map fun s' => (s', [])) : Ends visit s work answer := by
  induction bound generalizing s work with
  | zero =>
    rcases work with _ | ⟨x, work⟩ <;> rcases answer with e | s' <;> cases h
    exact .done
  | succ bound ih =>
    rcases work with _ | ⟨x, work⟩
    · rcases answer with e | s' <;> cases h
      exact .done
    · rw [run_cons] at h
      rcases hx : visit s x with e | ⟨s', new⟩
      · rw [hx] at h
        rcases answer with e' | s' <;> cases h
        exact .fault hx
      · rw [hx, ok_bind] at h
        exact .step hx (ih h)

/-- Distinct entries with indices below a bound are no more than the bound. -/
theorem length_le_of_nodup {index : α → Nat} (hinj : ∀ x y, index x = index y → x = y)
    {xs : List α} (hnd : xs.Nodup) {n : Nat} (hlt : ∀ x ∈ xs, index x < n) : xs.length ≤ n := by
  -- the indices are distinct, and all of them are among those below the bound
  have hnd' : (xs.map index).Nodup := hnd.map_on fun x _ y _ h => hinj x y h
  have hsub : xs.map index ⊆ List.range n := by
    intro i hi
    obtain ⟨x, hx, rfl⟩ := List.mem_map.mp hi
    exact List.mem_range.mpr (hlt x hx)
  simpa using hnd'.length_le_of_subset hsub

end Worklist

end StackFront
