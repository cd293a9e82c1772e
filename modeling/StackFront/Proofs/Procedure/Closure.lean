import Mathlib.Data.List.Cycle
import StackFront.Proofs.Procedure.Reachability

/-!
# Closures of the call graph

`Reachability` says what the walk over the call graph meets. From this the closure of a list of roots is
described here as a whole: when there is one, which set it is, and on what it does not depend. Nothing
is asked of the graph: procedures may call themselves or each other in a circle, parts of it may be out
of reach, and what is called need not exist.

* `UsedFrom` is what a list of roots leads to. `IsLeastClosed` describes the same set without chains of
  calls: it is the least one that holds the roots and is closed under calls.
* `Walks` is the walk without a bound on its visits, which the closure has only in order to be total.
* `Finds` is the form of the answers: a list, of which only the members matter.
* `SameGraph` and `Agrees` are about order: the same calls, listed in whatever order, and two answers with
  the same members.
* `closure_is_least_closed` is the result on closures, and `reachable_is_transitive` that on what a
  procedure leads to by at least one call. There the walk begins at the callees, and meets the
  procedure itself only if one of them leads back to it: if it lies on a cycle of calls.
-/

namespace StackFront.Procedures

variable {ps ps' : Procedures} {roots roots' found : List ProcId} {p q : ProcId}

/-! ### What is used -/

/-- **What a list of roots uses**: the roots, what they call, and so on. -/
def UsedFrom (ps : Procedures) (roots : List ProcId) (q : ProcId) : Prop :=
  ∃ r ∈ roots, ps.Leads r q

theorem usedFrom_singleton : ps.UsedFrom [p] q ↔ ps.Leads p q := by
  simp [UsedFrom]

/-- **All callees are known.** Nothing is asked of what is used outside every procedure. -/
def CalleesKnown (ps : Procedures) : Prop := ∀ p q, ps.Calls p q → ps.Knows q

instance (ps : Procedures) (q : ProcId) : Decidable (ps.Knows q) :=
  inferInstanceAs (Decidable (q.index < ps.size))

theorem calleesKnown_iff :
    ps.CalleesKnown ↔ ∀ proc ∈ ps.table, ∀ q ∈ proc.calls, q.index < ps.size := by
  constructor
  · intro h proc hproc q hq
    obtain ⟨i, hi⟩ := Array.mem_iff_getElem?.mp hproc
    exact h ⟨i⟩ q ⟨proc, hi, hq⟩
  · rintro h p q ⟨proc, hproc, hq⟩
    exact h proc (Array.mem_of_getElem? hproc) q hq

instance (ps : Procedures) : Decidable ps.CalleesKnown := decidable_of_iff _ calleesKnown_iff.symm

theorem calls_iff_of_get {proc : Procedure} (hp : ps.get p = .ok proc) :
    ps.Calls p q ↔ q ∈ proc.calls := by
  rw [get_eq_ok_iff] at hp
  simp [Calls, hp]

/-- What a known procedure leads to is known. -/
theorem CalleesKnown.knows (hc : ps.CalleesKnown) (h : ps.Leads p q) (hp : ps.Knows p) :
    ps.Knows q := by
  rcases Relation.ReflTransGen.cases_tail h with rfl | ⟨b, -, hbq⟩
  · exact hp
  · exact hc b q hbq

/-- Where all that is used is known, a closure is found. -/
theorem exists_closure_of_knows (h : ∀ q, ps.UsedFrom roots q → ps.Knows q) :
    ∃ found, ps.closure roots = .ok found ∧ found.Nodup ∧
      ∀ q, q ∈ found ↔ ps.UsedFrom roots q := by
  rcases closure_cases ps roots with ⟨found, hf, hnd, -, hmem⟩ | ⟨q, -, hq, hused⟩
  · exact ⟨found, hf, hnd, hmem⟩
  · exact absurd (h q hused) hq

/-- **A list is found, with exactly the members that are described.** -/
def Finds (answer : Except Fault (List ProcId)) (members : ProcId → Prop) : Prop :=
  ∃ found, answer = .ok found ∧ ∀ q, q ∈ found ↔ members q

theorem Finds.congr {answer : Except Fault (List ProcId)} {members members' : ProcId → Prop}
    (h : Finds answer members) (hiff : ∀ q, members q ↔ members' q) : Finds answer members' := by
  obtain ⟨found, hf, hmem⟩ := h
  exact ⟨found, hf, fun q => (hmem q).trans (hiff q)⟩

/-- From known roots a closure is found, if all callees are known. -/
theorem CalleesKnown.finds_closure (hc : ps.CalleesKnown) (hr : ∀ r ∈ roots, ps.Knows r) :
    Finds (ps.closure roots) (ps.UsedFrom roots) := by
  have hk : ∀ q, ps.UsedFrom roots q → ps.Knows q := by
    rintro q ⟨r, hmem, hrq⟩
    exact hc.knows hrq (hr r hmem)
  obtain ⟨found, hf, -, hmem⟩ := exists_closure_of_knows hk
  exact ⟨found, hf, hmem⟩

/-- Whatever is in a closure that has been found is known. -/
theorem knows_of_closure (h : ps.closure roots = .ok found) : ∀ q ∈ found, ps.Knows q := by
  rcases closure_cases ps roots with ⟨found', hf, -, hk, -⟩ | ⟨q, he, -⟩
  · obtain rfl := Except.ok.inj (h.symm.trans hf)
    exact hk
  · rw [h] at he
    cases he

theorem knows_roots_of_closure (h : ps.closure roots = .ok found) : ∀ r ∈ roots, ps.Knows r :=
  fun r hr => knows_of_closure h r ((mem_closure_iff h r).mpr ⟨r, hr, .refl⟩)

/-- A closure ends in a fault exactly if something is used that is not known. The index at fault is out
of range; which one it is depends on the order of the walk. -/
theorem closure_eq_error_iff :
    (∃ i, ps.size ≤ i ∧ ps.closure roots = .error (.outOfBounds ps.size i)) ↔
      ∃ q, ps.UsedFrom roots q ∧ ¬ ps.Knows q := by
  constructor
  · rintro ⟨i, -, he⟩
    by_contra hall
    have hk : ∀ q, ps.UsedFrom roots q → ps.Knows q := by
      intro q hq
      by_contra hk
      exact hall ⟨q, hq, hk⟩
    obtain ⟨found, hf, -⟩ := exists_closure_of_knows hk
    rw [hf] at he
    cases he
  · rintro ⟨q, hused, hq⟩
    rcases closure_cases ps roots with ⟨found, -, -, hk, hmem⟩ | ⟨q', he, hq', -⟩
    · exact absurd (hk q ((hmem q).mpr hused)) hq
    · exact ⟨q'.index, Nat.le_of_not_lt hq', he⟩

/-! ### The walk without a bound -/

/-- **The walk from a list of roots**, with no bound on its visits: what it ends with. -/
def Walks (ps : Procedures) (roots : List ProcId) (answer : Except Fault (List ProcId)) : Prop :=
  Worklist.Ends ps.visit (roots.foldl meet ([], [])).1 (roots.foldl meet ([], [])).2 answer

/-- The walk comes to its end, with the closure as its answer. -/
theorem walks_closure (ps : Procedures) (roots : List ProcId) :
    ps.Walks roots (ps.closure roots) := by
  obtain ⟨met, hmet, hcases⟩ := follow_cases ps roots
  -- in either case nothing is left on the work list when the bounded walk stops
  have hrun : ps.follow met met = (ps.closure roots).map fun found => (found, []) := by
    rcases hcases with ⟨found, hrun, -⟩ | ⟨q, hrun, -⟩
    all_goals
      simp only [closure, hmet, hrun]
      rfl
  rw [Walks, hmet]
  exact Worklist.Ends.of_run hrun

/-! ### The least closed set -/

/-- **The least set with the roots in it that is closed under calls**: whatever is in it is known, and
its callees are in it as well. -/
structure IsLeastClosed (ps : Procedures) (roots found : List ProcId) : Prop where
  roots_subset : roots ⊆ found
  closed : ∀ p ∈ found, ∃ proc, ps.get p = .ok proc ∧ proc.calls ⊆ found
  least : ∀ other : ProcId → Prop, (∀ r ∈ roots, other r) →
    (∀ p proc, other p → ps.get p = .ok proc → ∀ q ∈ proc.calls, other q) → ∀ q ∈ found, other q

/-- What is used from the roots is the least such set, if all of it is known. -/
theorem isLeastClosed_of_mem_iff (hmem : ∀ q, q ∈ found ↔ ps.UsedFrom roots q)
    (hk : ∀ q ∈ found, ps.Knows q) : ps.IsLeastClosed roots found := by
  refine ⟨fun r hr => (hmem r).mpr ⟨r, hr, .refl⟩, fun p hp => ?_, fun other hroots hcalls q hq => ?_⟩
  · obtain ⟨proc, hproc⟩ := (hk p hp).exists_get
    obtain ⟨r, hr, hrp⟩ := (hmem p).mp hp
    refine ⟨proc, hproc, fun q hq => (hmem q).mpr ⟨r, hr, hrp.tail ?_⟩⟩
    exact (calls_iff_of_get hproc).mpr hq
  · -- by induction on the chain of calls that leads from a root to `q`
    obtain ⟨r, hr, hrq⟩ := (hmem q).mp hq
    clear hq
    induction hrq with
    | refl => exact hroots r hr
    | tail _ hbc ih =>
      obtain ⟨proc, hproc, hc⟩ := hbc
      exact hcalls _ proc ih (get_eq_ok_iff.mpr hproc) _ hc

/-! ### The order in which calls are listed -/

/-- **The same call graph**: as many procedures with the same calls, listed in whatever order. -/
structure SameGraph (ps ps' : Procedures) : Prop where
  size_eq : ps'.size = ps.size
  calls_iff : ∀ p q, ps'.Calls p q ↔ ps.Calls p q

/-- **The same answer**: two lists with the same members, or a fault on both sides. -/
def Agrees : Except Fault (List ProcId) → Except Fault (List ProcId) → Prop
  | .ok found, .ok found' => ∀ q, q ∈ found ↔ q ∈ found'
  | .error _, .error _ => True
  | _, _ => False

theorem SameGraph.knows_iff (h : SameGraph ps ps') : ps'.Knows q ↔ ps.Knows q := by
  rw [Knows, Knows, h.size_eq]

/-- The same is used from the same roots. -/
theorem SameGraph.usedFrom_iff (h : SameGraph ps ps') (hr : ∀ r, r ∈ roots' ↔ r ∈ roots) :
    ps'.UsedFrom roots' q ↔ ps.UsedFrom roots q := by
  have hcalls : ps'.Calls = ps.Calls := by
    funext p q
    exact propext (h.calls_iff p q)
  simp only [UsedFrom, Leads, hcalls, hr]

/-- **No order matters to the closure**, be it of the roots or of the calls of a procedure. -/
theorem SameGraph.agrees (h : SameGraph ps ps') (hr : ∀ r, r ∈ roots' ↔ r ∈ roots) :
    Agrees (ps'.closure roots') (ps.closure roots) := by
  rcases closure_cases ps roots with ⟨found, hf, -, hk, hmem⟩ | ⟨q, he, hq, hused⟩
  · -- all that is used is known on one side, and so it is on the other
    have hk' : ∀ q, ps'.UsedFrom roots' q → ps'.Knows q := fun q hq =>
      h.knows_iff.mpr (hk q ((hmem q).mpr ((h.usedFrom_iff hr).mp hq)))
    obtain ⟨found', hf', -, hmem'⟩ := exists_closure_of_knows hk'
    rw [hf, hf']
    intro q
    rw [hmem', h.usedFrom_iff hr]
    exact (hmem q).symm
  · -- the walks need not meet the same unknown handle first, but both meet one
    have hused' : ps'.UsedFrom roots' q := (h.usedFrom_iff hr).mpr hused
    obtain ⟨i, -, he'⟩ := closure_eq_error_iff.mpr ⟨q, hused', mt h.knows_iff.mp hq⟩
    rw [he, he']
    trivial

/-! ### The results -/

/-- **The closure of a list of roots is the least set that holds them and is closed under calls.** The
walk always comes to its end. It ends in a fault exactly if a chain of calls leads from a root to a handle
that has not been given out, and otherwise in that set, with no procedure listed twice. In which order
the roots and the calls are listed makes no difference. -/
theorem closure_is_least_closed (ps : Procedures) (roots : List ProcId) :
    (∀ answer, ps.Walks roots answer ↔ ps.closure roots = answer) ∧
      ((∃ i, ps.size ≤ i ∧ ps.closure roots = .error (.outOfBounds ps.size i)) ↔
        ∃ q, ps.UsedFrom roots q ∧ ¬ ps.Knows q) ∧
      ((∀ q, ps.UsedFrom roots q → ps.Knows q) →
        ∃ found, ps.closure roots = .ok found ∧ found.Nodup ∧ ps.IsLeastClosed roots found ∧
          ∀ q, q ∈ found ↔ ps.UsedFrom roots q) ∧
      ∀ ps' roots', SameGraph ps ps' → (∀ r, r ∈ roots' ↔ r ∈ roots) →
        Agrees (ps'.closure roots') (ps.closure roots) := by
  refine ⟨fun answer => ⟨(walks_closure ps roots).unique, ?_⟩, closure_eq_error_iff, fun hk => ?_,
    fun ps' roots' h hr => h.agrees hr⟩
  · rintro rfl
    exact walks_closure ps roots
  · obtain ⟨found, hf, hnd, hmem⟩ := exists_closure_of_knows hk
    exact ⟨found, hf, hnd, isLeastClosed_of_mem_iff hmem fun q hq => hk q ((hmem q).mp hq), hmem⟩

/-- A procedure of which nothing is said but what it calls. -/
def calling (id : ProcId) (callees : List ProcId) : Procedure where
  id := id
  name := "p"
  ip := 0
  inputs := []
  outputs := []
  block := ⟨.procedure, 0, none⟩
  named := true
  owner := none
  arena := ⟨.procedure id, Arena.defaultAlignment, 0, ∅⟩
  «variables» := ∅
  calls := callees

/-- Three procedures that the first one leads to, two of which call each other. -/
def circle : Procedures :=
  ⟨#[calling ⟨0⟩ [⟨1⟩, ⟨3⟩], calling ⟨1⟩ [⟨2⟩], calling ⟨2⟩ [⟨1⟩], calling ⟨3⟩ []], [⟨0⟩],
    Arena.defaultAlignment⟩

/-- The same, with a procedure out of their reach that calls what does not exist. -/
def strayed : Procedures := { circle with table := circle.table.push (calling ⟨4⟩ [⟨9⟩, ⟨0⟩]) }

/-- The stray call is a fault only where it is met. -/
theorem stray_call_faults_if_met :
    strayed.IsLeastClosed [⟨0⟩, ⟨1⟩, ⟨0⟩] [⟨3⟩, ⟨2⟩, ⟨1⟩, ⟨0⟩] ∧
      ∃ q, strayed.UsedFrom [⟨4⟩] q ∧ ¬ strayed.Knows q := by
  obtain ⟨-, hfault, hfound, -⟩ := closure_is_least_closed strayed [⟨0⟩, ⟨1⟩, ⟨0⟩]
  obtain ⟨found, hf, -, hleast, -⟩ := hfound fun q hq => by
    by_contra hk
    obtain ⟨i, -, he⟩ := hfault.mpr ⟨q, hq, hk⟩
    cases he
  obtain rfl : _ = found := Except.ok.inj hf
  exact ⟨hleast, (closure_is_least_closed strayed [⟨4⟩]).2.1.mp ⟨9, by decide, rfl⟩⟩

/-- A procedure leads to itself by at least one call exactly if it lies on a cycle of calls. -/
theorem transGen_self_iff :
    Relation.TransGen ps.Calls p p ↔ ∃ cycle : Cycle ProcId, p ∈ cycle ∧ cycle.Chain ps.Calls := by
  constructor
  · intro h
    -- the way back to `p`, without its last call, is the cycle
    obtain ⟨b, hpb, hbp⟩ := Relation.TransGen.tail'_iff.mp h
    obtain ⟨way, hway, hlast⟩ := List.exists_isChain_cons_of_relationReflTransGen hpb
    refine ⟨(p :: way : List ProcId), List.mem_cons_self, ?_⟩
    rw [Cycle.chain_coe_cons, ← List.cons_append]
    refine hway.append (List.isChain_singleton p) fun x hx y hy => ?_
    have hxb : x = b := (List.mem_getLast?_eq_getLast hx).2.trans hlast
    obtain rfl : p = y := Option.some.inj hy
    rw [hxb]
    exact hbp
  · rintro ⟨cycle, hp, hchain⟩
    have htrans : cycle.Chain (Relation.TransGen ps.Calls) := hchain.imp fun _ _ => .single
    exact Cycle.chain_iff_pairwise.mp htrans p hp p hp

/-- What a known procedure leads to by at least one call is what its callees use. -/
theorem usedFrom_calls_iff {proc : Procedure} (hp : ps.get p = .ok proc) :
    ps.UsedFrom proc.calls q ↔ Relation.TransGen ps.Calls p q := by
  rw [Relation.TransGen.head'_iff]
  simp only [UsedFrom, Leads, calls_iff_of_get hp]

/-- So the walk from the callees finds it. -/
theorem CalleesKnown.finds_reachable (hc : ps.CalleesKnown) (hp : ps.Knows p) :
    Finds (ps.reachable p) (Relation.TransGen ps.Calls p) := by
  obtain ⟨proc, hproc⟩ := hp.exists_get
  have hcallees : ∀ q ∈ proc.calls, ps.Knows q :=
    fun q hq => hc p q ((calls_iff_of_get hproc).mpr hq)
  rw [reachable, hproc]
  exact (hc.finds_closure hcallees).congr fun q => usedFrom_calls_iff hproc

/-- **What a procedure leads to by at least one call.** If all callees are known, the walk finds for a
known procedure exactly the procedures at the end of a chain of calls, be it a single one. The
procedure itself is among them exactly if it lies on a cycle of calls. Together with it they are its
closure, and each of them leads to none but them. -/
theorem reachable_is_transitive (hc : ps.CalleesKnown) (hp : ps.Knows p) :
    ∃ below used, ps.reachable p = .ok below ∧ ps.closure [p] = .ok used ∧
      (∀ q, q ∈ below ↔ Relation.TransGen ps.Calls p q) ∧
      (p ∈ below ↔ ∃ cycle : Cycle ProcId, p ∈ cycle ∧ cycle.Chain ps.Calls) ∧
      (∀ q, q ∈ used ↔ q = p ∨ q ∈ below) ∧
      ∀ q ∈ below, ps.Knows q ∧ ∃ below', ps.reachable q = .ok below' ∧ below' ⊆ below := by
  obtain ⟨below, hbelow, hmem⟩ := hc.finds_reachable hp
  obtain ⟨used, hused, hmemUsed⟩ :=
    hc.finds_closure (List.forall_mem_singleton.mpr hp)
  refine ⟨below, used, hbelow, hused, hmem, (hmem p).trans transGen_self_iff, fun q => ?_,
    fun q hq => ?_⟩
  · rw [hmemUsed, usedFrom_singleton, hmem]
    exact Relation.reflTransGen_iff_eq_or_transGen
  · have hpq := (hmem q).mp hq
    have hk : ps.Knows q := hc.knows hpq.to_reflTransGen hp
    obtain ⟨below', hbelow', hmem'⟩ := hc.finds_reachable hk
    exact ⟨hk, below', hbelow', fun x hx => (hmem x).mpr (hpq.trans ((hmem' x).mp hx))⟩

/-- In the circle the second procedure lies on a cycle of calls, and the first one does not. -/
theorem circle_closes_behind_first :
    circle.CalleesKnown ∧ circle.Knows ⟨0⟩ ∧ circle.Knows ⟨1⟩ ∧
      (∃ cycle : Cycle ProcId, ⟨1⟩ ∈ cycle ∧ cycle.Chain circle.Calls) ∧
      ¬ ∃ cycle : Cycle ProcId, ⟨0⟩ ∈ cycle ∧ cycle.Chain circle.Calls := by
  have hc : circle.CalleesKnown := by decide
  have h₀ : circle.Knows ⟨0⟩ := by decide
  have h₁ : circle.Knows ⟨1⟩ := by decide
  refine ⟨hc, h₀, h₁, ?_, ?_⟩
  · obtain ⟨below, -, hbelow, -, -, hcycle, -⟩ := reachable_is_transitive hc h₁
    obtain rfl : _ = below := Except.ok.inj hbelow
    exact hcycle.mp (by decide)
  · obtain ⟨below, -, hbelow, -, -, hcycle, -⟩ := reachable_is_transitive hc h₀
    obtain rfl : _ = below := Except.ok.inj hbelow
    exact mt hcycle.mpr (by decide)

end StackFront.Procedures
