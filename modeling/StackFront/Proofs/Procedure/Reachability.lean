import Mathlib.Logic.Relation
import StackFront.Procedure.CallGraph
import StackFront.Proofs.Worklist

/-!
# The call graph and what it leads to

The closure of a list of roots is computed by a work list over procedures met for the first time.
Here it is compared with the relation it stands for: `Leads`, the reflexive and transitive closure
of `Calls`, where a procedure calls what has been recorded for it. A handle that has not been given
out calls nothing, but it can be called.

* `Tracing` is the invariant of the loop: what has been met is led to from a root, and a procedure
  that has been visited is known and has had its callees met.
* `closure_cases` is the whole of what the loop does: it ends with exactly what the roots lead to,
  or at a handle that they lead to and that has not been given out.
-/

namespace StackFront

theorem ProcId.index_inj {a b : ProcId} : a.index = b.index ↔ a = b := by
  cases a
  cases b
  exact (ProcId.mk.injEq _ _).symm.to_iff

namespace Procedures

variable {ps : Procedures} {roots found work : List ProcId} {p q : ProcId}

/-- The handle has been given out. -/
def Knows (ps : Procedures) (id : ProcId) : Prop := id.index < ps.size

/-- **A recorded call** from one procedure to another. -/
def Calls (ps : Procedures) (p q : ProcId) : Prop :=
  ∃ proc, ps.table[p.index]? = some proc ∧ q ∈ proc.calls

/-- **What a procedure leads to** by zero or more calls. -/
def Leads (ps : Procedures) : ProcId → ProcId → Prop := Relation.ReflTransGen ps.Calls

theorem get_of_not_knows (h : ¬ ps.Knows p) : ps.get p = .error (.outOfBounds ps.size p.index) :=
  fetch_of_le (Nat.le_of_not_lt h)

theorem Knows.exists_get (h : ps.Knows p) : ∃ proc, ps.get p = .ok proc :=
  ⟨_, fetch_of_lt h⟩

/-- Meeting several procedures adds those that have not been met to what has been met and to the
work list alike. -/
theorem foldl_meet (ids found work : List ProcId) :
    ∃ new, ids.foldl meet (found, work) = (new ++ found, new ++ work) ∧
      (found.Nodup → (new ++ found).Nodup) ∧ ∀ x, x ∈ new ++ found ↔ x ∈ ids ∨ x ∈ found := by
  induction ids generalizing found work with
  | nil => exact ⟨[], rfl, id, by simp⟩
  | cons id ids ih =>
    rw [List.foldl_cons, meet]
    by_cases hid : id ∈ found
    · -- the procedure has been met, and nothing is added for it
      obtain ⟨new, hnew, hnd, hmem⟩ := ih found work
      rw [if_pos hid]
      refine ⟨new, hnew, hnd, fun x => ?_⟩
      rw [hmem, List.mem_cons, or_assoc]
      constructor
      · exact .inr
      · rintro (rfl | h)
        · exact .inr hid
        · exact h
    · obtain ⟨new, hnew, hnd, hmem⟩ := ih (id :: found) (id :: work)
      rw [if_neg hid]
      refine ⟨new ++ [id], ?_, fun h => ?_, fun x => ?_⟩
      · simpa using hnew
      · simpa using hnd (List.nodup_cons.mpr ⟨hid, h⟩)
      · rw [List.append_assoc, List.singleton_append, hmem, List.mem_cons, List.mem_cons]
        exact or_left_comm.trans or_assoc.symm

/-! ### The loop -/

/-- **The invariant of the loop.** `found` has been met, and `work` is what of it has not been
visited. -/
structure Tracing (ps : Procedures) (roots found work : List ProcId) : Prop where
  nodup : found.Nodup
  nodup_work : work.Nodup
  work_subset : work ⊆ found
  /-- What has been met is led to from a root. -/
  led_to : ∀ q ∈ found, ∃ r ∈ roots, ps.Leads r q
  /-- The roots have been met. -/
  roots_subset : roots ⊆ found
  /-- A procedure that has been visited is known. -/
  knows : ∀ q ∈ found, q ∉ work → ps.Knows q
  /-- Its callees have been met. -/
  closed : ∀ q ∈ found, q ∉ work → ∀ c, ps.Calls q c → c ∈ found

theorem Tracing.start (ps : Procedures) (roots : List ProcId) :
    ∃ found, roots.foldl meet ([], []) = (found, found) ∧ Tracing ps roots found found := by
  obtain ⟨new, hnew, hnd, hmem⟩ := foldl_meet roots [] []
  rw [List.append_nil] at hnew hnd hmem
  have hmem' : ∀ x, x ∈ new ↔ x ∈ roots := fun x => by simpa using hmem x
  have hnd' := hnd List.nodup_nil
  refine ⟨new, hnew, hnd', hnd', fun _ h => h, ?_, fun x h => (hmem' x).mpr h, ?_, ?_⟩
  · intro q hq
    exact ⟨q, (hmem' q).mp hq, .refl⟩
  · intro q hq hn
    exact absurd hq hn
  · intro q hq hn
    exact absurd hq hn

/-- A visit to a known procedure keeps the invariant. -/
theorem Tracing.visit (h : Tracing ps roots found (p :: work)) {proc : Procedure}
    (hp : ps.get p = .ok proc) :
    ∃ new, ps.visit found p = .ok (new ++ found, new) ∧
      Tracing ps roots (new ++ found) (new ++ work) := by
  obtain ⟨new, hnew, hnd, hmem⟩ := foldl_meet proc.calls found []
  have hget : ps.table[p.index]? = some proc := get_eq_ok_iff.mp hp
  have hpf : p ∈ found := h.work_subset List.mem_cons_self
  have hfresh : (new ++ found).Nodup := hnd h.nodup
  have hwork : work ⊆ found := fun x hx => h.work_subset (List.mem_cons_of_mem p hx)
  refine ⟨new, ?_, hfresh, ?_, ?_, ?_, ?_, ?_, ?_⟩
  · rw [Procedures.visit, hp]
    simp [Except.map, hnew]
  · -- what is new has not been met, and so is not on the work list
    obtain ⟨hn, -, hdis⟩ := List.nodup_append.mp hfresh
    refine List.nodup_append.mpr ⟨hn, (List.nodup_cons.mp h.nodup_work).2, ?_⟩
    exact fun x hx y hy => hdis x hx y (hwork hy)
  · exact List.append_subset.mpr
      ⟨List.subset_append_left new found, fun x hx => List.mem_append_right new (hwork hx)⟩
  · -- what is new is called by `p`, which has been led to
    intro q hq
    rcases (hmem q).mp hq with hq | hq
    · obtain ⟨r, hr, hrp⟩ := h.led_to p hpf
      exact ⟨r, hr, hrp.tail ⟨proc, hget, hq⟩⟩
    · exact h.led_to q hq
  · exact fun r hr => List.mem_append_right new (h.roots_subset hr)
  · -- visited are `p`, which has just been looked up, and those visited before
    intro q hq hn
    rw [List.mem_append, not_or] at hn
    have hqf := (List.mem_append.mp hq).resolve_left hn.1
    by_cases hqp : q = p
    · subst hqp
      obtain ⟨hlt, -⟩ := Array.getElem?_eq_some_iff.mp hget
      exact hlt
    · exact h.knows q hqf fun hc => hn.2 ((List.mem_cons.mp hc).resolve_left hqp)
  · -- the callees of `p` have just been met, those of the others before
    intro q hq hn c hc
    rw [List.mem_append, not_or] at hn
    have hqf := (List.mem_append.mp hq).resolve_left hn.1
    by_cases hqp : q = p
    · subst hqp
      obtain ⟨proc', hproc', hmem'⟩ := hc
      obtain rfl := Option.some.inj (hget.symm.trans hproc')
      exact (hmem c).mpr (.inl hmem')
    · refine List.mem_append_right new (h.closed q hqf ?_ c hc)
      exact fun hc => hn.2 ((List.mem_cons.mp hc).resolve_left hqp)

/-- No more procedures have been visited than there are. -/
theorem Tracing.length_le (h : Tracing ps roots found work) :
    found.length ≤ work.length + ps.size := by
  -- what has been met is on the work list or has been visited, and the latter is known
  have hsplit := List.length_eq_length_filter_add (l := found) (fun x => decide (x ∈ work))
  have hwork : (found.filter fun x => decide (x ∈ work)).length ≤ work.length := by
    refine (h.nodup.filter _).length_le_of_subset fun x hx => ?_
    simpa using (List.mem_filter.mp hx).2
  have hvisited : (found.filter fun x => !decide (x ∈ work)).length ≤ ps.size := by
    refine Worklist.length_le_of_nodup (fun _ _ => ProcId.index_inj.mp) (h.nodup.filter _) ?_
    intro x hx
    obtain ⟨hxf, hxw⟩ := List.mem_filter.mp hx
    exact h.knows x hxf (by simpa using hxw)
  omega

/-- When nothing is left to be visited, exactly what the roots lead to has been met. -/
theorem Tracing.mem_iff (h : Tracing ps roots found []) (q : ProcId) :
    q ∈ found ↔ ∃ r ∈ roots, ps.Leads r q := by
  constructor
  · exact h.led_to q
  · -- by induction on the chain of calls: its beginning has been met, and with it all callees
    rintro ⟨r, hr, hrq⟩
    induction hrq with
    | refl => exact h.roots_subset hr
    | tail _ hbc ih => exact h.closed _ ih List.not_mem_nil _ hbc

/-- **The loop comes to its end**, or to a handle that has not been given out. The bound has to admit
one visit more than there are procedures left to be visited. -/
theorem Tracing.follow (h : Tracing ps roots found work) {bound : Nat}
    (hb : work.length + ps.size < bound + found.length) :
    (∃ found', Worklist.run ps.visit bound found work = .ok (found', []) ∧
      Tracing ps roots found' []) ∨
    ∃ q, Worklist.run ps.visit bound found work = .error (.outOfBounds ps.size q.index) ∧
      ¬ ps.Knows q ∧ ∃ r ∈ roots, ps.Leads r q := by
  induction bound generalizing found work with
  | zero =>
    -- more procedures would have been visited than there are
    have hle := h.length_le
    omega
  | succ bound ih =>
    cases work with
    | nil => exact .inl ⟨found, Worklist.run_nil ps.visit (bound + 1) found, h⟩
    | cons p work =>
      rw [Worklist.run_cons]
      by_cases hp : ps.Knows p
      · obtain ⟨proc, hproc⟩ := hp.exists_get
        obtain ⟨new, hnew, hnext⟩ := h.visit hproc
        rw [hnew, ok_bind]
        refine ih hnext ?_
        simp only [List.length_append, List.length_cons] at hb ⊢
        omega
      · refine .inr ⟨p, ?_, hp, h.led_to p (h.work_subset List.mem_cons_self)⟩
        rw [Procedures.visit, get_of_not_knows hp]
        rfl

/-- **Followed from the roots**, calls come to their end, or to a handle that has not been given out. -/
theorem follow_cases (ps : Procedures) (roots : List ProcId) :
    ∃ met, roots.foldl meet ([], []) = (met, met) ∧
      ((∃ found, ps.follow met met = .ok (found, []) ∧ Tracing ps roots found []) ∨
        ∃ q, ps.follow met met = .error (.outOfBounds ps.size q.index) ∧ ¬ ps.Knows q ∧
          ∃ r ∈ roots, ps.Leads r q) := by
  obtain ⟨met, hmet, h⟩ := Tracing.start ps roots
  have hb : met.length + ps.size < ps.size + 1 + met.length := by omega
  exact ⟨met, hmet, h.follow hb⟩

/-- **What the closure of a list of roots is**: everything that the roots lead to, each procedure
once, if all of that is known; otherwise a fault at a handle that they lead to. -/
theorem closure_cases (ps : Procedures) (roots : List ProcId) :
    (∃ found, ps.closure roots = .ok found ∧ found.Nodup ∧ (∀ q ∈ found, ps.Knows q) ∧
      ∀ q, q ∈ found ↔ ∃ r ∈ roots, ps.Leads r q) ∨
    ∃ q, ps.closure roots = .error (.outOfBounds ps.size q.index) ∧ ¬ ps.Knows q ∧
      ∃ r ∈ roots, ps.Leads r q := by
  obtain ⟨met, hmet, ⟨found, hrun, h⟩ | ⟨q, hrun, hq⟩⟩ := follow_cases ps roots
  · refine .inl ⟨found, ?_, h.nodup, fun q hq => h.knows q hq List.not_mem_nil, h.mem_iff⟩
    simp only [closure, hmet, hrun]
    rfl
  · refine .inr ⟨q, ?_, hq⟩
    simp only [closure, hmet, hrun]
    rfl

/-- A closure that is found holds exactly what the roots lead to. -/
theorem mem_closure_iff (h : ps.closure roots = .ok found) (q : ProcId) :
    q ∈ found ↔ ∃ r ∈ roots, ps.Leads r q := by
  rcases closure_cases ps roots with ⟨found', hf, -, -, hmem⟩ | ⟨q', he, -⟩
  · obtain rfl := Except.ok.inj (h.symm.trans hf)
    exact hmem q
  · rw [h] at he
    cases he

end Procedures

end StackFront
