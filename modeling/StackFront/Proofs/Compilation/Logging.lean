import StackFront.Demo.Instruction
import StackFront.Proofs.Compilation.Handles
import StackFront.Proofs.Log.Transparency
import StackFront.Proofs.Worklist

/-!
# Operations that the log does not interfere with

A log is there to be read, and a compilation is to come out the same whether anyone reads it or not.
Three kinds of records look something up before they are written: the name of a method's owner, that
of a static method's owner, and that of the procedure whose body is entered. The first look-up comes
after the owner has been visited, and succeeds; the second one fails only where the operation itself
fails. The third is the one place where the log shows through: a body can be entered under a handle
that stands for nothing, and only those who want the record learn of it.

So every operation is transparent but that one, and that one is transparent exactly if its handle is
known (`transparent_perform_iff`). Other handles need not be: a parent, an owner or a callee that does
not exist makes the same difference under every filter.

* One lemma for each operation says that it is transparent, the inner ones first.
* `transparent_performAll` is the run, by induction on the commands.
* `logging_does_not_interfere` states it for a history that enters no body under a made-up handle.
-/

namespace StackFront

open Step (Transparent)

/-! ### Reporting -/

namespace Reporter

theorem transparent_write (r : Reporter) (e : Diagnostic) : (r.write e).Transparent := by
  unfold write
  split
  · exact (Transparent.note _ _ _).bind fun _ _ => .pure _
  · exact .pure _

theorem transparent_record (r : Reporter) (e : Diagnostic) : (r.record e).Transparent :=
  (r.transparent_write e).bind fun _ _ => (Transparent.note _ _ _).bind fun _ _ => .pure _

theorem transparent_report (r : Reporter) (e : Diagnostic) : (r.report e).Transparent := by
  unfold report
  split
  · exact (r.transparent_record e).map Aftermath.goesOn
  · exact (r.transparent_write e).bind fun _ _ => (Transparent.note _ _ _).bind fun _ _ => .pure _

end Reporter

/-! ### Blocks, memory and names -/

namespace Nesting

theorem transparent_enter (n : Nesting) (kind : BlockKind) (ip : Nat) :
    (n.enter kind ip).Transparent :=
  (Transparent.note _ _ _).bind fun _ _ => .pure _

theorem transparent_leaveBy (n : Nesting) (closing : String) (ip : Nat) :
    (n.leaveBy closing ip).Transparent := by
  unfold leaveBy
  split
  · exact .pure _
  · split
    · exact (Transparent.note _ _ _).bind fun _ _ => .pure _
    · exact .pure _

end Nesting

theorem Arena.transparent_allocate (a : Arena) (name : String) (size : UInt64) :
    (a.allocate name size).Transparent :=
  (Transparent.lookUp _).bind fun _ _ => (Transparent.note _ _ _).bind fun _ _ => .pure _

namespace Globals

theorem transparent_addConstant (g : Globals) (name : String) (value : Int) :
    (g.addConstant name value).Transparent := by
  unfold addConstant
  split
  · exact .pure _
  · exact (Transparent.note _ _ _).bind fun _ _ => .pure _

theorem transparent_addEnum (g : Globals) (name : String) (variants : List String) :
    (g.addEnum name variants).Transparent := by
  unfold addEnum
  split
  · exact .pure _
  · exact (Transparent.note _ _ _).bind fun _ _ => .pure _

theorem transparent_carve (g : Globals) (name : String) (size : UInt64) :
    (g.carve name size).Transparent :=
  (g.memory.transparent_allocate name size).bind fun _ _ => .pure _

end Globals

/-! ### Structs -/

namespace Hierarchy

variable {t : Hierarchy} {owner : StructId} {name : String} {proc : ProcId}

theorem transparent_define (t : Hierarchy) (d : StructDef) : (t.define d).Transparent :=
  (Transparent.lookUp _).bind fun _ _ => (Transparent.note _ _ _).bind fun _ _ => .pure _

/-- When a method has been entered for its owner and for all structs below, the owner can be looked
up: it was the first one to be visited, and no visit takes a struct away. -/
theorem exists_get_of_propagate {p : Hierarchy × List StructId}
    (h : t.propagate name proc [owner] = .ok p) : ∃ s, p.1.get owner = .ok s := by
  have hvisit : ∀ (t' : Hierarchy) x q, t'.size = t.size → enterMethod name proc t' x = .ok q →
      q.1.size = t.size := by
    intro t' x q ht hq
    unfold enterMethod at hq
    rcases hx : t'.get x with e | s
    · rw [hx] at hq
      cases hq
    · rw [hx] at hq
      cases hq
      exact (size_update _ _ _).trans ht
  have hsize : p.1.size = t.size :=
    Worklist.run_keeps (P := fun t' => t'.size = t.size) hvisit h rfl
  have hknown : t.Knows owner := by
    by_contra hn
    rw [propagate_of_not_knows hn] at h
    cases h
  have hknown' : p.1.Knows owner := Nat.lt_of_lt_of_eq hknown hsize.symm
  obtain ⟨s, hs⟩ := knows_iff.mp hknown'
  exact ⟨s, get_eq_ok_iff_struct?.mpr hs⟩

theorem transparent_registerMethod (t : Hierarchy) (owner : StructId) (name : String)
    (proc : ProcId) : (t.registerMethod owner name proc).Transparent := by
  refine (Transparent.lookUp _).bind fun p hp => ?_
  obtain ⟨s, hs⟩ := exists_get_of_propagate hp
  refine (Transparent.record ⟨s!"method {name} on {s.name} ({proc.label})", ?_⟩).bind
    fun _ _ => .pure _
  rw [hs]
  rfl

/-- Here nothing has been looked up when the record is written. But the owner is looked up next. -/
theorem transparent_registerStatic (t : Hierarchy) (owner : StructId) (name : String)
    (proc : ProcId) : (t.registerStatic owner name proc).Transparent := by
  refine .record_bind ((Transparent.lookUp _).bind fun _ _ => .pure _) fun e he f => ?_
  rcases hs : t.get owner with e' | s
  · rw [hs] at he
    cases he
    rfl
  · rw [hs] at he
    cases he

end Hierarchy

/-! ### Procedures -/

namespace Procedures

theorem transparent_register (types : Hierarchy) (d : ProcedureDef) (id : ProcId) :
    (register types d id).Transparent := by
  unfold register
  split
  · exact .pure _
  · exact types.transparent_registerMethod _ _ _

theorem transparent_define (ps : Procedures) (types : Hierarchy) (d : ProcedureDef) :
    (ps.define types d).Transparent :=
  (transparent_register _ _ _).bind fun _ _ => (Transparent.note _ _ _).bind fun _ _ =>
    (Transparent.lookUp _).bind fun _ _ => .pure _

theorem transparent_defineStatic (ps : Procedures) (types : Hierarchy) (owner : StructId)
    (d : ProcedureDef) : (ps.defineStatic types owner d).Transparent :=
  (ps.transparent_define types _).bind fun p _ =>
    (p.2.2.transparent_registerStatic owner d.name p.1).bind fun _ _ => .pure _

/-- The record of a call shows handles, and looks none of them up. -/
theorem transparent_addCall (ps : Procedures) (caller : Option ProcId) (callee : ProcId) :
    (ps.addCall caller callee).Transparent := by
  refine (Transparent.note _ _ _).bind fun _ _ => ?_
  cases caller with
  | none => exact .pure _
  | some caller => exact (Transparent.lookUp _).bind fun _ _ => .pure _

theorem transparent_allocate (ps : Procedures) (id : ProcId) (name : String) (size : UInt64) :
    (ps.allocate id name size).Transparent :=
  (Transparent.lookUp _).bind fun p _ =>
    (p.arena.transparent_allocate name size).bind fun _ _ => .pure _

end Procedures

/-! ### Compilations -/

namespace Compilation

variable {ω : Type}

theorem transparent_report (c : Compilation ω) (e : Diagnostic) : (c.report e).Transparent :=
  (c.reporter.transparent_report e).bind fun _ _ => .pure _

theorem transparent_record (c : Compilation ω) (e : Diagnostic) : (c.record e).Transparent :=
  (c.reporter.transparent_record e).bind fun _ _ => .pure _

theorem transparent_accept {α : Type} (c : Compilation ω) (r : Except Diagnostic α) :
    (c.accept r).Transparent := by
  cases r with
  | ok a => exact .pure _
  | error e => exact (c.transparent_report e).bind fun _ _ => .pure _

theorem transparent_keepPosition (c : Compilation ω) : c.keepPosition.Transparent :=
  (Transparent.note _ _ _).bind fun _ _ => .pure _

theorem transparent_returnTo (c : Compilation ω) (p : Position) : (c.returnTo p).Transparent :=
  (Transparent.note _ _ _).bind fun _ _ => .pure _

theorem transparent_detourTo (c : Compilation ω) (source : Source) :
    (c.detourTo source).Transparent :=
  c.transparent_keepPosition.bind fun _ _ => .pure _

theorem transparent_emit (c : Compilation ω) (op : ω) : (c.emit op).Transparent :=
  (Transparent.note _ _ _).bind fun _ _ => .pure _

theorem transparent_enterBlock (c : Compilation ω) (kind : BlockKind) :
    (c.enterBlock kind).Transparent :=
  (c.position.blocks.transparent_enter kind c.ip).bind fun _ _ => .pure _

theorem transparent_leaveBlockBy (c : Compilation ω) (closing : String) :
    (c.leaveBlockBy closing).Transparent := by
  refine (c.position.blocks.transparent_leaveBy closing c.ip).bind fun r _ => ?_
  cases r <;> exact .pure _

theorem transparent_declareConstant (c : Compilation ω) (t : Token) (value : Int) :
    (c.declareConstant t value).Transparent :=
  (c.globals.transparent_addConstant t.text value).bind fun _ _ => .pure _

theorem transparent_declareEnum (c : Compilation ω) (t : Token) (variants : List String) :
    (c.declareEnum t variants).Transparent :=
  (c.globals.transparent_addEnum t.text variants).bind fun _ _ => .pure _

theorem transparent_allocateIn (c : Compilation ω) (id : ProcId) (name : String) (size : UInt64) :
    (c.allocateIn id name size).Transparent := by
  refine (Transparent.lookUp _).bind fun p _ => ?_
  split
  · exact .pure _
  · exact (c.procs.transparent_allocate id name size).bind fun _ _ => .pure _

theorem transparent_declareMemory (c : Compilation ω) (t : Token) (size : UInt64) :
    (c.declareMemory t size).Transparent := by
  unfold declareMemory
  split
  · exact .pure _
  · split
    · exact (Globals.transparent_carve _ t.text size).bind fun _ _ => .pure _
    · exact transparent_allocateIn _ _ t.text size

theorem transparent_declareVariable (c : Compilation ω) (b : Binding) :
    (c.declareVariable b).Transparent := by
  refine (Transparent.note _ _ _).bind fun _ _ => ?_
  split
  · exact .pure _
  · exact (Transparent.lookUp _).bind fun _ _ => .pure _

theorem transparent_declareStruct (c : Compilation ω) (t : Token) (fields : List Field)
    (parent : Option StructId) (defaults : Table Nat Token) :
    (c.declareStruct t fields parent defaults).Transparent := by
  unfold declareStruct
  split
  · exact .pure _
  · exact (Hierarchy.transparent_define _ _).bind fun _ _ => .pure _

theorem transparent_commitProcedure (c : Compilation ω) (d : ProcedureDef) :
    (c.commitProcedure d).Transparent := by
  unfold commitProcedure
  split
  · exact (c.procs.transparent_define c.types d).bind fun _ _ => .pure _
  · split
    · exact (c.procs.transparent_defineStatic c.types _ d).bind fun _ _ => .pure _
    · exact (c.procs.transparent_define c.types d).bind fun _ _ => .pure _

theorem transparent_declareProcedure (c : Compilation ω) (t : Token)
    (inputs outputs : List ValueType) (block : Block) :
    (c.declareProcedure t inputs outputs block).Transparent := by
  unfold declareProcedure
  dsimp only
  split
  · exact .pure _
  · exact (transparent_commitProcedure _ _).bind fun _ _ => .pure _

/-- Without a log, a body is entered under any handle. -/
theorem result_enterBody_off (c : Compilation ω) (id : ProcId) :
    ((c.enterBody id).run .off).result = .ok { c with current := some id } :=
  enterBody_eq_ok_iff.mpr ⟨fun hf => absurd hf (by simp), rfl⟩

/-- With the whole log it is not: the name of the procedure has to be written. -/
theorem knows_of_enterBody_trace {c c' : Compilation ω} {id : ProcId}
    (h : ((c.enterBody id).run (.upTo .trace)).result = .ok c') : c.procs.Knows id := by
  obtain ⟨p, hp⟩ := (enterBody_eq_ok_iff.mp h).1 (Log.Filter.trace_admits .trace)
  exact Procedures.knows_iff_head?.mpr ⟨p.head, Procedures.head?_of_get hp⟩

theorem transparent_enterBody {c : Compilation ω} {id : ProcId} (h : c.procs.Knows id) :
    (c.enterBody id).Transparent := by
  obtain ⟨p, hp⟩ := h.exists_get
  refine (Transparent.record ⟨s!"enter {p.name}", ?_⟩).bind fun _ _ => .pure _
  rw [hp]
  rfl

theorem transparent_useProcedure (c : Compilation ω) (callee : ProcId) :
    (c.useProcedure callee).Transparent :=
  (c.procs.transparent_addCall c.current callee).bind fun _ _ => .pure _

theorem transparent_analyse (c : Compilation ω) : c.analyse.Transparent :=
  (Transparent.lookUp _).bind fun _ _ => (Transparent.note _ _ _).bind fun _ _ => .pure _

theorem transparent_handOver (c : Compilation ω) : c.handOver.Transparent := by
  unfold handOver
  split
  · exact .pure _
  · exact c.transparent_analyse.bind fun _ _ => .pure _

end Compilation

/-! ### Sessions -/

namespace Session

variable {ω : Type} [Opcode ω] {f : Log.Filter} {s s' : Session ω} {command : Command ω}
  {commands : List (Command ω)} {events : List (Event ω)}

/-- Bodies apart, what a command does has nothing to do with the log. -/
theorem transparent_act (h : ∀ id, command = .enterBody id → s.compilation.procs.Knows id) :
    (s.act command).Transparent := by
  cases command with
  | report e | record e => exact (s.compilation.transparent_record e).bind fun _ _ => .pure _
  | keepPosition name => exact s.compilation.transparent_keepPosition.bind fun _ _ => .pure _
  | detourTo name source =>
    exact (s.compilation.transparent_detourTo source).bind fun _ _ => .pure _
  | returnTo name =>
    unfold act
    dsimp only
    split
    · exact .pure _
    · exact (s.compilation.transparent_returnTo _).bind fun _ _ => .pure _
  | emit op => exact (s.compilation.transparent_emit op).bind fun _ _ => .pure _
  | patch ip op =>
    unfold act
    dsimp only
    split <;> exact .pure _
  | enterBlock kind => exact (s.compilation.transparent_enterBlock kind).bind fun _ _ => .pure _
  | leaveBlockBy closing =>
    exact (s.compilation.transparent_leaveBlockBy closing).bind fun _ _ => .pure _
  | declareConstant t value =>
    exact (s.compilation.transparent_declareConstant t value).bind fun _ _ => .pure _
  | declareEnum t variants =>
    exact (s.compilation.transparent_declareEnum t variants).bind fun _ _ => .pure _
  | declareMemory t size =>
    exact (s.compilation.transparent_declareMemory t size).bind fun _ _ => .pure _
  | declareVariable b =>
    exact (s.compilation.transparent_declareVariable b).bind fun _ _ => .pure _
  | declareStruct t fields parent defaults =>
    exact (s.compilation.transparent_declareStruct t fields parent defaults).bind
      fun _ _ => .pure _
  | declareProcedure t inputs outputs block =>
    exact (s.compilation.transparent_declareProcedure t inputs outputs block).bind
      fun _ _ => .pure _
  | enterBody id =>
    exact (Compilation.transparent_enterBody (h id rfl)).bind fun _ _ => .pure _
  | useProcedure callee =>
    exact (s.compilation.transparent_useProcedure callee).bind fun _ _ => .pure _
  | analyse => exact s.compilation.transparent_analyse.bind fun _ _ => .pure _
  | _ => exact .pure _

/-- **One command**: the log interferes with it exactly if it enters a body under a handle that
stands for nothing. -/
theorem transparent_perform_iff :
    (s.perform command).Transparent ↔
      ∀ id, command = .enterBody id → s.compilation.procs.Knows id := by
  constructor
  · rintro h id rfl
    have hoff : Performs .off s (.enterBody id) .done
        (s.withCompilation { s.compilation with current := some id }) := by
      refine performs_of_act (by simp) ?_
      rw [act, Step.result_bind, Compilation.result_enterBody_off]
      rfl
    -- those who want everything see the body entered as well, and hence find the handle
    have htrace : Performs (.upTo .trace) s (.enterBody id) .done
        (s.withCompilation { s.compilation with current := some id }) :=
      (h.result_eq (.upTo .trace) .off).trans hoff
    obtain ⟨c', hc', -⟩ := Step.exists_of_bind_pure htrace.act
    exact Compilation.knows_of_enterBody_trace hc'
  · intro h
    cases command with
    | report e => exact (s.compilation.transparent_report e).bind fun _ _ => .pure _
    | _ => exact (transparent_act h).map Aftermath.goesOn

/-- **Several commands**, if every body is known when it is entered. -/
theorem transparent_performAll
    (h : ∀ events id s', events.map (·.command) ++ [.enterBody id] <+: commands →
      Run f s events s' → s'.compilation.procs.Knows id) :
    (s.performAll commands).Transparent := by
  induction commands generalizing s with
  | nil => exact .pure _
  | cons command rest ih =>
    have hfirst : (s.perform command).Transparent := by
      refine transparent_perform_iff.mpr fun id hid => h [] id s ?_ .start
      exact ⟨rest, by rw [hid]; rfl⟩
    rw [performAll]
    refine hfirst.bind fun after hafter => ?_
    rcases after with ⟨reply, s₁⟩ | ⟨reply, s₁⟩
    · -- the rest is carried out from `s₁`, which is the same under every filter
      have hperforms : Performs f s command reply s₁ :=
        (hfirst.result_eq f (.upTo .trace)).trans hafter
      refine (ih fun events id s' hp hr => ?_).bind fun _ _ => .pure _
      have hrun : Run f s (⟨s, command, reply⟩ :: events) s' :=
        run_cons_iff.mpr ⟨rfl, s₁, hperforms, hr⟩
      exact h (⟨s, command, reply⟩ :: events) id s' (List.cons_prefix_cons.mpr ⟨rfl, hp⟩) hrun
    · exact .pure _

/-! ### Histories -/

/-- **Bodies are entered under handles that were given out.** Whenever a body is entered, its handle
was the reply to a definition before. Nothing is asked of other handles. -/
def EntersGiven (f : Log.Filter) (s : Session ω) (commands : List (Command ω)) : Prop :=
  ∀ events id s', events.map (·.command) ++ [.enterBody id] <+: commands →
    Run f s events s' → GivesProcedure events id

theorem entersGiven_append_iff :
    EntersGiven f s (commands ++ [command]) ↔ EntersGiven f s commands ∧
      ∀ id, command = .enterBody id → ∀ events s', events.map (·.command) = commands →
        Run f s events s' → GivesProcedure events id := by
  unfold EntersGiven
  simp only [List.prefix_concat_iff]
  constructor
  · intro h
    refine ⟨fun events id s' hp => h events id s' (.inr hp), ?_⟩
    rintro id rfl events s' rfl
    exact h events id s' (.inl rfl)
  · rintro ⟨h, hlast⟩ events id s' (heq | hp)
    · -- the body that is entered is the last command
      obtain ⟨hc, hid⟩ := List.append_inj' heq rfl
      exact hlast id (List.cons.inj hid).1.symm events s' hc
    · exact h events id s' hp

/-- **Logging does not interfere with a compilation.** As far as commands are carried out, they have
the same replies, leave the same session, and end in the same fault if they end in one, whatever is
logged; and what is logged is picked from the whole log. The log shows through in no other place than
a body that is entered under a handle that stands for nothing. -/
theorem logging_does_not_interfere {settings : Settings} {reporter : Reporter}
    {c : Compilation ω} (hc : Compilation.create settings reporter = .ok c)
    (h : EntersGiven f (start c) commands) :
    (∀ before, before <+: commands → ((start c).performAll before).Transparent) ∧
    (∀ (s : Session ω) (command : Command ω), (s.perform command).Transparent ↔
      ∀ id, command = .enterBody id → s.compilation.procs.Knows id) ∧
    ∀ c : Compilation ω, c.handOver.Transparent ∧
      ∀ (α : Type) (r : Except Diagnostic α), (c.accept r).Transparent := by
  -- a handle that was given out is known
  have hknown : ∀ events id s', events.map (·.command) ++ [.enterBody id] <+: commands →
      Run f (start c) events s' → s'.compilation.procs.Knows id := by
    intro events id s' hp hr
    rw [(knows_iff_gives ⟨reporter, c, hc, hr⟩).2]
    exact h events id s' hp hr
  refine ⟨fun before hb => ?_, fun s command => transparent_perform_iff,
    fun c => ⟨c.transparent_handOver, fun α r => c.transparent_accept r⟩⟩
  exact transparent_performAll fun events id s' hp hr => hknown events id s' (hp.trans hb) hr

/-- The body of `main` calls a procedure that does not exist, and what it leads to is asked for. -/
def dangling : List (Command Demo.Instruction) :=
  [] ++ [.declareProcedure ⟨"main", .unknown⟩ [] [] ⟨.procedure, 0, none⟩] ++ [.useProcedure ⟨0⟩] ++
    [.enterBody ⟨0⟩] ++ [.useProcedure ⟨7⟩] ++ [.analyse]

theorem entersGiven_dangling {c : Compilation Demo.Instruction}
    (hc : Compilation.create .default (.create .collect false) = .ok c) :
    EntersGiven .off (start c) dangling := by
  have hnil : EntersGiven .off (start c) [] := fun events id s' h =>
    absurd (List.prefix_nil.mp h) (by simp)
  unfold dangling
  simp only [entersGiven_append_iff, reduceCtorEq, false_implies, implies_true, and_true]
  refine ⟨hnil, ?_⟩
  intro id hid events s' hcommands hr
  cases hid
  -- there is one run of the commands before, and in it `main` has been defined
  have hplay : (start c).play .off (events.map (·.command)) = (events, s') := hr.play_eq
  rw [hcommands] at hplay
  obtain ⟨rfl, -⟩ := Prod.mk.inj hplay
  cases hc
  exact ⟨_, .head _, rfl, rfl⟩

/-- What is asked for cannot be found out, and that is so whatever is logged. Of the four records made
by then, a log without traces has one. -/
theorem dangling_call_fails_alike :
    ∃ c, Compilation.create .default (.create .collect false) = .ok c ∧
      EntersGiven .off (start c) dangling ∧
      (∀ f, (((start c).performAll dangling).run f).result = .error (.outOfBounds 1 7)) ∧
      (((start c).performAll dangling).run (.upTo .debug)).records.map (·.level) = [.debug] := by
  obtain ⟨c, hc⟩ : ∃ c : Compilation Demo.Instruction,
      Compilation.create .default (.create .collect false) = .ok c := ⟨_, rfl⟩
  have hentered := entersGiven_dangling hc
  have htransparent := (logging_does_not_interfere hc hentered).1 dangling List.prefix_rfl
  refine ⟨c, hc, hentered, fun f => (htransparent.result_eq f .off).trans ?_, ?_⟩
  · cases hc
    rfl
  · rw [htransparent.records_eq (.upTo .debug)]
    cases hc
    rfl

end Session

end StackFront
