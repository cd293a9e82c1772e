import StackFront.Proofs.Compilation.Operations
import StackFront.Proofs.Procedure.Closure

/-!
# Recorded calls and what they bring into use

The references of a compilation are recorded one by one, while bodies are read: a call enters the callee
with its caller, a use outside every procedure enters it with the top level. What is used is computed
from them much later. Here the effect of a recorded call on what is used is described without computing
anything anew.

A new chain of calls may pass the new call many times, and may close cycles that were open before. None
of this matters: past its *last* visit to the new call a chain is an old one, which begins at the callee.
So a call from a procedure that is not used changes nothing, and one from a procedure that is used brings
in what the callee has used before.

* `Refers` reads the references off the tables, and `refers_addCall` says that recording one adds it, and no
  other.
* `Gains` relates procedures to those they become when references are recorded, by one call or by many.
* `leads_iff_of_call` is the decomposition of the new chains.
* `recording_extends_use` is the result, `FollowsCalls` its statement.
-/

namespace StackFront.Procedures

variable {ps ps' ps₁ ps₂ : Procedures} {reader : Option ProcId} {roots used : List ProcId}
  {p q u v : ProcId} {f : Log.Filter}

/-! ### References in the tables -/

/-- **A recorded reference**, from a procedure or from outside every procedure. -/
def Refers (ps : Procedures) : Option ProcId → ProcId → Prop
  | none, q => q ∈ ps.topLevel
  | some p, q => ps.Calls p q

theorem calls_update {id p : ProcId} {change : Procedure → Procedure}
    (hc : ∀ proc, (change proc).calls = proc.calls) :
    (ps.update id change).Calls p q ↔ ps.Calls p q := by
  unfold Calls
  rw [getElem?_update]
  split
  · rcases ps.table[p.index]? with _ | proc <;> simp [hc]
  · exact Iff.rfl

/-- What is not a matter of calls can change without a trace in the references. -/
theorem refers_update {id : ProcId} {change : Procedure → Procedure}
    (hc : ∀ proc, (change proc).calls = proc.calls) :
    (ps.update id change).Refers reader q ↔ ps.Refers reader q := by
  cases reader with
  | none => exact Iff.rfl
  | some p => exact calls_update hc

/-- A new procedure calls nothing. -/
theorem refers_grown (d : ProcedureDef) (arena : Arena) :
    (ps.grown d arena).Refers reader q ↔ ps.Refers reader q := by
  cases reader with
  | none => exact Iff.rfl
  | some p =>
    change (∃ proc, (ps.table.push (ps.build d arena))[p.index]? = some proc ∧ _) ↔ _
    rw [Array.getElem?_push]
    by_cases hp : p.index = ps.table.size
    · -- the new procedure has an empty set of callees, and had none before it was there
      rw [if_pos hp]
      constructor
      · rintro ⟨proc, hproc, hq⟩
        obtain rfl := Option.some.inj hproc
        exact absurd hq List.not_mem_nil
      · rintro ⟨proc, hproc, -⟩
        rw [hp, Array.getElem?_size] at hproc
        cases hproc
    · rw [if_neg hp]
      exact Iff.rfl

/-- **Recording a reference** adds it, and no other. -/
theorem refers_addCall {f : Log.Filter} {ps' : Procedures} {caller : Option ProcId}
    {callee : ProcId} (h : ((ps.addCall caller callee).run f).result = .ok ps') :
    ps'.Refers reader q ↔ ps.Refers reader q ∨ (callee = q ∧ caller = reader) := by
  rcases addCall_eq_ok_iff.mp h with ⟨rfl, rfl⟩ | ⟨id, proc, rfl, hproc, rfl⟩
  · -- the caller is outside every procedure, and no set of callees changes
    cases reader with
    | none =>
      change q ∈ ps.topLevel.insert callee ↔ q ∈ ps.topLevel ∨ _
      rw [List.mem_insert_iff, or_comm, eq_comm (a := q)]
      simp
    | some p => simp [Refers, Calls]
  · -- the caller is a procedure, and the callee joins the set of that one alone
    rw [get_eq_ok_iff] at hproc
    cases reader with
    | none => simp [Refers, update]
    | some p =>
      change (∃ proc, (ps.update id _).table[p.index]? = some proc ∧ q ∈ proc.calls) ↔
        (∃ proc, ps.table[p.index]? = some proc ∧ q ∈ proc.calls) ∨ _
      rw [getElem?_update]
      by_cases hp : id = p
      · subst hp
        rw [if_pos rfl, hproc]
        simp [List.mem_insert_iff, or_comm, eq_comm]
      · rw [if_neg (mt ProcId.index_inj.mp hp)]
        simp [hp]

/-! ### Gains -/

/-- **`ps'` is `ps` with further references**, and nothing is known in it that was not known before. -/
structure Gains (ps ps' : Procedures) (added : Option ProcId → ProcId → Prop) : Prop where
  size_eq : ps'.size = ps.size
  refers_iff : ∀ reader q, ps'.Refers reader q ↔ ps.Refers reader q ∨ added reader q

namespace Gains

variable {added added₁ added₂ : Option ProcId → ProcId → Prop}

theorem knows_iff (h : Gains ps ps' added) : ps'.Knows q ↔ ps.Knows q := by
  rw [Knows, Knows, h.size_eq]

theorem calls_iff (h : Gains ps ps' added) : ps'.Calls p q ↔ ps.Calls p q ∨ added (some p) q :=
  h.refers_iff (some p) q

theorem mem_topLevel_iff (h : Gains ps ps' added) :
    q ∈ ps'.topLevel ↔ q ∈ ps.topLevel ∨ added none q :=
  h.refers_iff none q

/-- Callees stay known if those that are added are. -/
theorem calleesKnown (h : Gains ps ps' added) (hc : ps.CalleesKnown)
    (hadded : ∀ reader q, added reader q → ps.Knows q) : ps'.CalleesKnown := by
  intro p q hpq
  rw [h.knows_iff]
  exact (h.calls_iff.mp hpq).elim (hc p q) (hadded (some p) q)

/-- No chain of calls is lost. -/
theorem leads (h : Gains ps ps' added) (hpq : ps.Leads p q) : ps'.Leads p q :=
  Relation.ReflTransGen.mono (fun _ _ hcall => h.calls_iff.mpr (.inl hcall)) p q hpq

theorem usedFrom (h : Gains ps ps' added) (hq : ps.UsedFrom roots q) : ps'.UsedFrom roots q := by
  obtain ⟨r, hr, hrq⟩ := hq
  exact ⟨r, hr, h.leads hrq⟩

/-- Nothing that is used outside every procedure is lost. -/
theorem usedFrom_topLevel (h : Gains ps ps' added) (hq : ps.UsedFrom ps.topLevel q) :
    ps'.UsedFrom ps'.topLevel q := by
  obtain ⟨r, hr, hrq⟩ := hq
  exact ⟨r, h.mem_topLevel_iff.mpr (.inl hr), h.leads hrq⟩

/-- **Equal gains lead to the same call graph**, however they were made. -/
theorem sameGraph (h₁ : Gains ps ps₁ added₁) (h₂ : Gains ps ps₂ added₂)
    (hadded : ∀ reader q, added₂ reader q ↔ added₁ reader q) : SameGraph ps₁ ps₂ where
  size_eq := h₂.size_eq.trans h₁.size_eq.symm
  calls_iff p q := by rw [h₁.calls_iff, h₂.calls_iff, hadded]

end Gains

/-- **Recording a call succeeds** if its caller is known, and makes one reference. The callee is not
looked at. -/
theorem exists_addCall {caller : Option ProcId} (hk : ∀ u, caller = some u → ps.Knows u)
    (callee : ProcId) (f : Log.Filter) :
    ∃ ps', ((ps.addCall caller callee).run f).result = .ok ps' ∧
      Gains ps ps' fun reader q => callee = q ∧ caller = reader := by
  have key : ∀ ps', ((ps.addCall caller callee).run f).result = .ok ps' → ps'.size = ps.size →
      ∃ ps', ((ps.addCall caller callee).run f).result = .ok ps' ∧
        Gains ps ps' fun reader q => callee = q ∧ caller = reader :=
    fun ps' hr hsize => ⟨ps', hr, hsize, fun _ _ => refers_addCall hr⟩
  rcases caller with _ | u
  · exact key _ (addCall_eq_ok_iff.mpr (.inl ⟨rfl, rfl⟩)) rfl
  · obtain ⟨proc, hproc⟩ := (hk u rfl).exists_get
    exact key _ (addCall_eq_ok_iff.mpr (.inr ⟨u, proc, rfl, hproc, rfl⟩)) Array.size_modify

/-- **Records calls**, one after the other. -/
def addCalls (ps : Procedures) (calls : List (Option ProcId × ProcId)) : Step Procedures :=
  calls.foldlM (fun ps call => ps.addCall call.1 call.2) ps

/-- Recorded one after the other, calls make the references that are among them, each of them as often
as one likes. -/
theorem exists_addCalls {calls : List (Option ProcId × ProcId)}
    (hk : ∀ call ∈ calls, ∀ u, call.1 = some u → ps.Knows u) (f : Log.Filter) :
    ∃ ps', ((ps.addCalls calls).run f).result = .ok ps' ∧
      Gains ps ps' fun reader q => (reader, q) ∈ calls := by
  induction calls generalizing ps with
  | nil => exact ⟨ps, rfl, rfl, by simp⟩
  | cons call calls ih =>
    obtain ⟨caller, callee⟩ := call
    obtain ⟨ps₁, h₁, hgains₁⟩ := exists_addCall (hk (caller, callee) List.mem_cons_self) callee f
    have hk₁ : ∀ c ∈ calls, ∀ u, c.1 = some u → ps₁.Knows u := fun c hc u hu =>
      hgains₁.knows_iff.mpr (hk c (List.mem_cons_of_mem _ hc) u hu)
    obtain ⟨ps₂, h₂, hgains₂⟩ := ih hk₁
    refine ⟨ps₂, ?_, hgains₂.size_eq.trans hgains₁.size_eq, fun reader q => ?_⟩
    · rw [addCalls, List.foldlM_cons, Step.result_bind, h₁, ok_bind]
      exact h₂
    · have hfirst : (reader, q) = (caller, callee) ↔ callee = q ∧ caller = reader := by
        constructor
        · rintro ⟨⟩
          exact ⟨rfl, rfl⟩
        · rintro ⟨rfl, rfl⟩
          rfl
      rw [hgains₂.refers_iff, hgains₁.refers_iff, List.mem_cons, hfirst, or_assoc]

/-! ### What one call brings into use -/

/-- **A chain that may use a new call** is an old one, or an old one up to the caller and, past its last
visit to the call, an old one from the callee. -/
theorem leads_iff_of_call (hcalls : ∀ p q, ps'.Calls p q ↔ ps.Calls p q ∨ v = q ∧ u = p) :
    ps'.Leads p q ↔ ps.Leads p q ∨ ps.Leads p u ∧ ps.Leads v q := by
  have hold : ∀ p q, ps.Leads p q → ps'.Leads p q :=
    Relation.ReflTransGen.mono fun a b hab => (hcalls a b).mpr (.inl hab)
  constructor
  · intro h
    induction h with
    | refl => exact .inl .refl
    | @tail b c _ hbc ih =>
      rcases (hcalls b c).mp hbc with hbc | ⟨rfl, rfl⟩
      · exact ih.imp (·.tail hbc) fun ⟨hpu, hvb⟩ => ⟨hpu, hvb.tail hbc⟩
      · -- the chain visits the new call, and what it did behind an earlier visit is forgotten
        exact .inr ⟨ih.elim id And.left, .refl⟩
  · rintro (h | ⟨hpu, hvq⟩)
    · exact hold p q h
    · have hcall : ps'.Leads u v := .single ((hcalls u v).mpr (.inr ⟨rfl, rfl⟩))
      exact (hold p u hpu).trans (hcall.trans (hold v q hvq))

/-- What a call brings into use from some roots, if anything: what the callee uses. -/
theorem usedFrom_iff_of_call (hcalls : ∀ p q, ps'.Calls p q ↔ ps.Calls p q ∨ v = q ∧ u = p) :
    ps'.UsedFrom roots q ↔ ps.UsedFrom roots q ∨ ps.UsedFrom roots u ∧ ps.Leads v q := by
  simp only [UsedFrom, leads_iff_of_call hcalls]
  constructor
  · rintro ⟨r, hr, hrq | ⟨hru, hvq⟩⟩
    · exact .inl ⟨r, hr, hrq⟩
    · exact .inr ⟨⟨r, hr, hru⟩, hvq⟩
  · rintro (⟨r, hr, hrq⟩ | ⟨⟨r, hr, hru⟩, hvq⟩)
    · exact ⟨r, hr, .inl hrq⟩
    · exact ⟨r, hr, .inr ⟨hru, hvq⟩⟩

/-- A definition makes the tables grow by a procedure. A static method is one that has no owner. -/
theorem exists_grown_of_define {types types' : Hierarchy} {d : ProcedureDef} {id : ProcId}
    (h : ((ps.define types d).run f).result = .ok (id, ps', types') ∨
      ∃ owner, ((ps.defineStatic types owner d).run f).result = .ok (id, ps', types')) :
    ∃ d' arena, ps' = ps.grown d' arena := by
  rcases h with h | ⟨owner, h⟩
  · obtain ⟨arena, -, -, -, hgrown⟩ := define_eq_ok_iff.mp h
    exact ⟨d, arena, hgrown⟩
  · obtain ⟨types₁, h, -⟩ := defineStatic_eq_ok_iff.mp h
    obtain ⟨arena, -, -, -, hgrown⟩ := define_eq_ok_iff.mp h
    exact ⟨_, arena, hgrown⟩

namespace CalleesKnown

variable (hc : ps.CalleesKnown)

include hc

/-- Procedures that have gained references to known procedures find what they use. -/
theorem finds_of_gains {added : Option ProcId → ProcId → Prop} (h : Gains ps ps' added)
    (hadded : ∀ reader q, added reader q → ps.Knows q) (hr : ∀ r ∈ roots, ps.Knows r) :
    Finds (ps'.closure roots) (ps'.UsedFrom roots) :=
  (h.calleesKnown hc hadded).finds_closure fun r hmem => h.knows_iff.mpr (hr r hmem)

/-- **A call from a procedure**: what the callee uses is added, provided that the caller is used. -/
theorem finds_addCall (hr : ∀ r ∈ roots, ps.Knows r) (hu : ps.Knows u) (hv : ps.Knows v)
    (f : Log.Filter) :
    ∃ ps', ((ps.addCall (some u) v).run f).result = .ok ps' ∧ Finds (ps'.closure roots) fun q =>
      ps.UsedFrom roots q ∨ ps.UsedFrom roots u ∧ ps.UsedFrom [v] q := by
  have hknown : ∀ w, some u = some w → ps.Knows w := by
    rintro w ⟨⟩
    exact hu
  obtain ⟨ps', hrun, hgains⟩ := exists_addCall hknown v f
  have hcalls : ∀ p q, ps'.Calls p q ↔ ps.Calls p q ∨ v = q ∧ u = p := by
    intro p q
    rw [hgains.calls_iff, Option.some.injEq]
  refine ⟨ps', hrun, (hc.finds_of_gains hgains ?_ hr).congr fun q => ?_⟩
  · rintro reader q ⟨rfl, -⟩
    exact hv
  · rw [usedFrom_iff_of_call hcalls, usedFrom_singleton]

/-- **A use outside every procedure**: what the callee uses is added to what is used there. -/
theorem finds_addCall_none (htop : ∀ r ∈ ps.topLevel, ps.Knows r) (hv : ps.Knows v)
    (f : Log.Filter) :
    ∃ ps', ((ps.addCall none v).run f).result = .ok ps' ∧
      Finds (ps'.closure ps'.topLevel) fun q => ps.UsedFrom ps.topLevel q ∨ ps.UsedFrom [v] q := by
  have hknown : ∀ w, none = some w → ps.Knows w := by rintro w ⟨⟩
  obtain ⟨ps', hrun, hgains⟩ := exists_addCall hknown v f
  have hleads : ps'.Leads = ps.Leads := by
    have hcalls : ps'.Calls = ps.Calls := by
      funext p q
      simp [hgains.calls_iff]
    rw [Leads, Leads, hcalls]
  have hmem : ∀ r, r ∈ ps'.topLevel ↔ r ∈ ps.topLevel ∨ v = r := fun r => by
    simp [hgains.mem_topLevel_iff]
  have hk : ∀ r ∈ ps'.topLevel, ps.Knows r := by
    intro r hr
    rcases (hmem r).mp hr with hr | rfl
    · exact htop r hr
    · exact hv
  refine ⟨ps', hrun, (hc.finds_of_gains hgains ?_ hk).congr fun q => ?_⟩
  · rintro reader q ⟨rfl, -⟩
    exact hv
  · simp only [UsedFrom, hleads, hmem, or_and_right, exists_or, exists_eq_left', List.mem_singleton,
      exists_eq_left]

/-- **A definition** brings nothing into use: a new procedure calls nothing, and nothing calls it. -/
theorem finds_grown (hr : ∀ r ∈ roots, ps.Knows r) (d : ProcedureDef) (arena : Arena) :
    Finds ((ps.grown d arena).closure roots) (ps.UsedFrom roots) := by
  have hcalls : (ps.grown d arena).Calls = ps.Calls := by
    funext p q
    have href : (ps.grown d arena).Refers (some p) q ↔ ps.Refers (some p) q :=
      refers_grown d arena
    exact propext href
  have hknows : ∀ q, ps.Knows q → (ps.grown d arena).Knows q := by
    intro q hq
    have hsize : (ps.grown d arena).size = ps.size + 1 := Array.size_push _
    rw [Knows, hsize]
    exact Nat.lt_succ_of_lt hq
  have hc' : (ps.grown d arena).CalleesKnown := by
    intro p q hpq
    rw [hcalls] at hpq
    exact hknows q (hc p q hpq)
  refine (hc'.finds_closure fun r hmem => hknows r (hr r hmem)).congr fun q => ?_
  simp only [UsedFrom, Leads, hcalls]

/-- **Equal gains lead to equal closures**, whatever is the order of the roots. -/
theorem finds_both {added₁ added₂ : Option ProcId → ProcId → Prop} (h₁ : Gains ps ps₁ added₁)
    (h₂ : Gains ps ps₂ added₂) (hsame : ∀ reader q, added₂ reader q ↔ added₁ reader q)
    (hadded : ∀ reader q, added₁ reader q → ps.Knows q) {roots' : List ProcId}
    (hroots : ∀ r, r ∈ roots' ↔ r ∈ roots) (hr : ∀ r ∈ roots, ps.Knows r) :
    ∃ found : List ProcId, (∀ q, q ∈ found ↔ ps₁.UsedFrom roots q) ∧
      Finds (ps₁.closure roots) (· ∈ found) ∧ Finds (ps₂.closure roots') (· ∈ found) := by
  obtain ⟨found, hfound, hmem⟩ := hc.finds_of_gains h₁ hadded hr
  have hfinds₂ : Finds (ps₂.closure roots') (ps₂.UsedFrom roots') :=
    hc.finds_of_gains h₂ (fun reader q h => hadded reader q ((hsame reader q).mp h))
      fun r hmem => hr r ((hroots r).mp hmem)
  refine ⟨found, hmem, ⟨found, hfound, fun _ => Iff.rfl⟩, hfinds₂.congr fun q => ?_⟩
  rw [hmem]
  exact (h₁.sameGraph h₂ hsame).usedFrom_iff hroots

/-- **Calls recorded in two ways**, in any order and each of them as often as one likes, lead to the
same closures, and these only grow. -/
theorem finds_addCalls {calls calls' : List (Option ProcId × ProcId)}
    (hk : ∀ call ∈ calls, (∀ u, call.1 = some u → ps.Knows u) ∧ ps.Knows call.2)
    (hsame : ∀ call, call ∈ calls' ↔ call ∈ calls) (hused : ps.closure roots = .ok used)
    (f : Log.Filter) :
    ∃ ps₁ ps₂, ((ps.addCalls calls).run f).result = .ok ps₁ ∧
      ((ps.addCalls calls').run f).result = .ok ps₂ ∧
      (∃ used', used ⊆ used' ∧ Finds (ps₁.closure roots) (· ∈ used') ∧
        Finds (ps₂.closure roots) (· ∈ used')) ∧
      ∀ top, ps.closure ps.topLevel = .ok top → ∃ top', top ⊆ top' ∧
        Finds (ps₁.closure ps₁.topLevel) (· ∈ top') ∧
        Finds (ps₂.closure ps₂.topLevel) (· ∈ top') := by
  obtain ⟨ps₁, h₁, hgains₁⟩ := exists_addCalls (fun call hcall => (hk call hcall).1) f
  obtain ⟨ps₂, h₂, hgains₂⟩ :=
    exists_addCalls (fun call hcall => (hk call ((hsame call).mp hcall)).1) f
  have hadded : ∀ reader q, (reader, q) ∈ calls → ps.Knows q := fun _ _ h => (hk _ h).2
  refine ⟨ps₁, ps₂, h₁, h₂, ?_, fun top htop => ?_⟩
  · obtain ⟨used', hmem, hfinds⟩ := hc.finds_both hgains₁ hgains₂ (fun _ _ => hsame _) hadded
      (fun _ => Iff.rfl) (knows_roots_of_closure hused)
    refine ⟨used', fun q hq => (hmem q).mpr ?_, hfinds⟩
    exact hgains₁.usedFrom ((mem_closure_iff hused q).mp hq)
  · -- the roots have changed as well, in the same way on both sides
    have hmemTop : ∀ r, r ∈ ps₂.topLevel ↔ r ∈ ps₁.topLevel := by
      intro r
      rw [hgains₁.mem_topLevel_iff, hgains₂.mem_topLevel_iff, hsame]
    have hknown : ∀ r ∈ ps₁.topLevel, ps.Knows r := fun r hr =>
      (hgains₁.mem_topLevel_iff.mp hr).elim (knows_roots_of_closure htop r) (hadded none r)
    obtain ⟨top', hmem, hfinds⟩ := hc.finds_both hgains₁ hgains₂ (fun _ _ => hsame _) hadded
      hmemTop hknown
    refine ⟨top', fun q hq => (hmem q).mpr ?_, hfinds⟩
    exact hgains₁.usedFrom_topLevel ((mem_closure_iff htop q).mp hq)

end CalleesKnown

/-! ### The result -/

/-- **What is used follows the recorded calls**: how the closure of some roots, which is `used`, and that
of the top level come to change. -/
structure FollowsCalls (f : Log.Filter) (ps : Procedures) (roots used : List ProcId) : Prop where
  /-- A call from a procedure that is not used changes nothing. -/
  call_of_unused : ∀ u v, ps.Knows u → ps.Knows v → u ∉ used →
    ∃ ps', ((ps.addCall (some u) v).run f).result = .ok ps' ∧
      Finds (ps'.closure roots) (· ∈ used)
  /-- A call from one that is used adds what the callee has used before. -/
  call_of_used : ∀ u v, ps.Knows u → ps.Knows v → u ∈ used →
    ∃ ps' below, ((ps.addCall (some u) v).run f).result = .ok ps' ∧ ps.closure [v] = .ok below ∧
      Finds (ps'.closure roots) fun q => q ∈ used ∨ q ∈ below
  /-- So does a use outside every procedure, to what is used there. -/
  use_outside : ∀ v top, ps.Knows v → ps.closure ps.topLevel = .ok top →
    ∃ ps' below, ((ps.addCall none v).run f).result = .ok ps' ∧ ps.closure [v] = .ok below ∧
      Finds (ps'.closure ps'.topLevel) fun q => q ∈ top ∨ q ∈ below
  /-- A definition, be it of a static method, changes neither closure. -/
  define : ∀ types d id ps' types',
    ((ps.define types d).run f).result = .ok (id, ps', types') ∨
      (∃ owner, ((ps.defineStatic types owner d).run f).result = .ok (id, ps', types')) →
    Finds (ps'.closure roots) (· ∈ used) ∧ ∀ top, ps.closure ps.topLevel = .ok top →
      Finds (ps'.closure ps'.topLevel) (· ∈ top)
  /-- Many calls add to both closures, and take nothing away. What they lead to is the same for all ways
  to record the same calls, in whatever order and however often. -/
  calls : ∀ calls calls',
    (∀ call ∈ calls, (∀ u, call.1 = some u → ps.Knows u) ∧ ps.Knows call.2) →
    (∀ call, call ∈ calls' ↔ call ∈ calls) →
    ∃ ps₁ ps₂, ((ps.addCalls calls).run f).result = .ok ps₁ ∧
      ((ps.addCalls calls').run f).result = .ok ps₂ ∧
      (∃ used', used ⊆ used' ∧ Finds (ps₁.closure roots) (· ∈ used') ∧
        Finds (ps₂.closure roots) (· ∈ used')) ∧
      ∀ top, ps.closure ps.topLevel = .ok top → ∃ top', top ⊆ top' ∧
        Finds (ps₁.closure ps₁.topLevel) (· ∈ top') ∧ Finds (ps₂.closure ps₂.topLevel) (· ∈ top')

/-- **Recorded calls extend what is used**, and nothing else does. If all callees are known, the closure
of known roots follows the calls that are recorded one by one; the closure of the top level does so too,
and there is one if all that is used outside every procedure is known. -/
theorem recording_extends_use (hc : ps.CalleesKnown) (hr : ∀ r ∈ roots, ps.Knows r)
    (f : Log.Filter) :
    (∃ used, ps.closure roots = .ok used ∧ FollowsCalls f ps roots used) ∧
      ((∀ r ∈ ps.topLevel, ps.Knows r) → ∃ top, ps.closure ps.topLevel = .ok top) := by
  obtain ⟨used, hused, hmem⟩ := hc.finds_closure hr
  refine ⟨⟨used, hused, ?_, ?_, ?_, ?_, ?_⟩, fun htop => ?_⟩
  · -- no root leads to the caller, so that nothing is added
    intro u v hu hv hnot
    obtain ⟨ps', hrun, hfinds⟩ := hc.finds_addCall hr hu hv f
    refine ⟨ps', hrun, hfinds.congr fun q => ?_⟩
    have hunused : ¬ ps.UsedFrom roots u := mt (hmem u).mpr hnot
    rw [hmem]
    exact or_iff_left fun h => hunused h.1
  · -- a root leads to the caller, and through the call to all that the callee uses
    intro u v hu hv hin
    obtain ⟨ps', hrun, hfinds⟩ := hc.finds_addCall hr hu hv f
    obtain ⟨below, hbelow, hmemBelow⟩ := hc.finds_closure (List.forall_mem_singleton.mpr hv)
    refine ⟨ps', below, hrun, hbelow, hfinds.congr fun q => ?_⟩
    have hcaller : ps.UsedFrom roots u := (hmem u).mp hin
    rw [hmem, hmemBelow, and_iff_right hcaller]
  · -- here it is the roots that change, and no chain of calls does
    intro v top hv htop
    obtain ⟨ps', hrun, hfinds⟩ := hc.finds_addCall_none (knows_roots_of_closure htop) hv f
    obtain ⟨below, hbelow, hmemBelow⟩ := hc.finds_closure (List.forall_mem_singleton.mpr hv)
    refine ⟨ps', below, hrun, hbelow, hfinds.congr fun q => ?_⟩
    rw [mem_closure_iff htop, hmemBelow, UsedFrom]
  · -- the new procedure has no part in any chain of calls
    intro types d id ps' types' hdef
    obtain ⟨d', arena, rfl⟩ := exists_grown_of_define hdef
    refine ⟨(hc.finds_grown hr d' arena).congr fun q => (hmem q).symm, fun top htop => ?_⟩
    exact (hc.finds_grown (knows_roots_of_closure htop) d' arena).congr
      fun q => (mem_closure_iff htop q).symm
  · intro calls calls' hk hsame
    exact hc.finds_addCalls hk hsame hused f
  · obtain ⟨top, htop, -⟩ := hc.finds_closure htop
    exact ⟨top, htop⟩

/-- From the second procedure of the circle on, a call by the leaf changes nothing, and one back to the
first procedure brings all of them in. -/
theorem call_back_brings_in_all :
    circle.CalleesKnown ∧ (∀ r ∈ [⟨1⟩], circle.Knows r) ∧
      (∃ ps', ((circle.addCall (some ⟨3⟩) ⟨0⟩).run .off).result = .ok ps' ∧
        Finds (ps'.closure [⟨1⟩]) (· ∈ [(⟨2⟩ : ProcId), ⟨1⟩])) ∧
      ∃ ps', ((circle.addCall (some ⟨2⟩) ⟨0⟩).run .off).result = .ok ps' ∧
        Finds (ps'.closure [⟨1⟩]) (· ∈ [(⟨2⟩ : ProcId), ⟨3⟩, ⟨1⟩, ⟨0⟩]) := by
  have hc : circle.CalleesKnown := by decide
  have hr : ∀ r ∈ [⟨1⟩], circle.Knows r := by decide
  obtain ⟨⟨used, hused, hfollows⟩, -⟩ := recording_extends_use hc hr .off
  obtain rfl : [⟨2⟩, ⟨1⟩] = used := Except.ok.inj hused
  refine ⟨hc, hr, hfollows.call_of_unused ⟨3⟩ ⟨0⟩ (by decide) (by decide) (by decide), ?_⟩
  obtain ⟨ps', below, hrun, hbelow, hfinds⟩ :=
    hfollows.call_of_used ⟨2⟩ ⟨0⟩ (by decide) (by decide) (by decide)
  obtain rfl : [⟨2⟩, ⟨3⟩, ⟨1⟩, ⟨0⟩] = below := Except.ok.inj hbelow
  refine ⟨ps', hrun, hfinds.congr fun q => ?_⟩
  -- what was used before is below the first procedure, too
  have hbefore : [(⟨2⟩ : ProcId), ⟨1⟩] ⊆ [⟨2⟩, ⟨3⟩, ⟨1⟩, ⟨0⟩] := by decide
  exact or_iff_right_of_imp fun h => hbefore h

end StackFront.Procedures
