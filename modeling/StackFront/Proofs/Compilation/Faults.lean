import StackFront.Demo.Instruction
import StackFront.Proofs.Compilation.Handles
import StackFront.Proofs.Compilation.Memory
import StackFront.Proofs.Compilation.Usage
import StackFront.Proofs.Memory.Rounding

/-!
# Where a command can end in a fault

A compilation looks up handles at every turn: of the struct that is being read, of the procedure
whose body is being read, of parents, children and callees. None of these look-ups can fail, as long
as no handle is made up: every handle that a compilation keeps has been given out before. What is
left is the one sum that can be too large for a machine word, the end of an arena.

* `Intact` is the invariant: what a compilation keeps can be looked up. It is kept by every step of
  a history in which no handle is made up (`intact_of_reached`).
* For each operation that looks something up, one lemma says that an intact compilation can carry it
  out; `Intact.declareMemory` is about the exception.
* `fault_only_by_overflow` puts them together.
-/

namespace StackFront

variable {ω : Type}

/-! ### Compilations in which nothing is missing -/

/-- **What a compilation keeps can be looked up**, and its arenas can be rounded to. -/
structure Intact (alignment : UInt64) (c : Compilation ω) : Prop where
  aligned : Word.isPowerOfTwo alignment = true
  housed : Session.Housed alignment c
  sound : c.types.Sound
  /-- The struct that is being read is known. -/
  owner : ∀ a, c.owner = some a → c.types.Knows a
  /-- So is the procedure whose body is being read. -/
  current : ∀ p, c.current = some p → c.procs.Knows p
  /-- So are all that have been referred to. -/
  callee : ∀ reader q, c.procs.Refers reader q → c.procs.Knows q

namespace Session

variable [Opcode ω] {f : Log.Filter} {settings : Settings} {s s' : Session ω}
  {command : Command ω} {reply : Reply} {events : List (Event ω)}

/-- **A step keeps a compilation intact** if its handles can be looked up. -/
theorem Performs.intact {alignment : UInt64} (hs : Performs f s command reply s')
    (h : Intact alignment s.compilation) (hsound : s'.compilation.types.Sound)
    (hc : command.Handles s.compilation.types.Knows s.compilation.procs.Knows) :
    Intact alignment s'.compilation := by
  have hstruct : ∀ a, s.compilation.types.Knows a → s'.compilation.types.Knows a :=
    fun a ha => (hs.knows_struct_iff h.sound).mpr (.inl ha)
  have hproc : ∀ p, s.compilation.procs.Knows p → s'.compilation.procs.Knows p :=
    fun p hp => hs.knows_procedure_iff.mpr (.inl hp)
  refine ⟨h.aligned, h.housed.step hs, hsound, ?_, ?_, ?_⟩
  · intro a ha
    apply hstruct
    rcases hs.owner_cases with heq | rfl
    · rw [heq] at ha
      exact h.owner a ha
    · rw [ha] at hc
      exact hc
  · intro p hp
    apply hproc
    rcases hs.current_cases with heq | hnone | ⟨p', rfl, hp'⟩
    · rw [heq] at hp
      exact h.current p hp
    · rw [hnone] at hp
      cases hp
    · obtain rfl := Option.some.inj (hp'.symm.trans hp)
      exact hc
  · -- a reference that is new is to the procedure that the command is about
    intro reader q hq
    apply hproc
    rcases (hs.refers_iff reader q).mp hq with hold | ⟨rfl, -⟩
    · exact h.callee reader q hold
    · exact hc

/-- **Every proper history leads to an intact compilation.** -/
theorem intact_of_reached (h : Reached f settings events s) (hp : Proper events) :
    Intact settings.alignment s.compilation := by
  refine h.induction (P := fun events s => Proper events →
    Intact settings.alignment s.compilation) ?_ ?_ hp
  · intro reporter c hc _
    have hr : Reached f settings [] (start c) := ⟨reporter, c, hc, .start⟩
    have hhoused := housed_of_reached hr
    obtain ⟨arena, ha, rfl⟩ := Compilation.create_eq_ok_iff.mp hc
    obtain ⟨haligned, -⟩ := Arena.create_eq_ok_iff.mp ha
    refine ⟨haligned, hhoused, .empty, ?_, ?_, ?_⟩
    · exact fun _ h => by cases h
    · exact fun _ h => by cases h
    · -- nothing has been referred to
      intro reader q hq
      have huses := (refers_iff_uses hr reader q).mp hq
      obtain ⟨e, he, -⟩ := huses
      cases he
  · intro events s command reply s' hr ih hs hproper
    obtain ⟨hbefore, hc⟩ := proper_append_iff.mp hproper
    obtain ⟨hstructs, hprocs⟩ := knows_iff_gives hr
    rw [← hstructs, ← hprocs] at hc
    have hsound := (hs.agrees (agrees_of_reached hr)).sound
    exact hs.intact (ih hbefore) hsound hc

end Session

/-! ### What an intact compilation can carry out -/

/-- A step whose value is only rewrapped yields a value if the step before it does. -/
theorem Step.result_bind_pure {α β : Type} {f : Log.Filter} {x : Step α} {a : α}
    (h : (x.run f).result = .ok a) (k : α → β) :
    ((x >>= fun a => (pure (k a) : Step β)).run f).result = .ok (k a) := by
  rw [Step.result_bind, h]
  rfl

namespace Compilation

/-! Some operations write to the log and can be refused, but look nothing up. -/

theorem exists_leaveBlockBy (c : Compilation ω) (closing : String) (f : Log.Filter) :
    ∃ r, ((c.leaveBlockBy closing).run f).result = .ok r := by
  unfold leaveBlockBy
  rw [Step.result_bind, Nesting.result_leaveBy, ok_bind]
  split <;> exact ⟨_, rfl⟩

theorem exists_declareConstant (c : Compilation ω) (t : Token) (value : Int) (f : Log.Filter) :
    ∃ r, ((c.declareConstant t value).run f).result = .ok r := by
  rcases hv : c.globals.vet t.text .constant with cause | _
  · exact ⟨_, declareConstant_eq_ok_iff.mpr (.inl ⟨cause, hv, rfl⟩)⟩
  · exact ⟨_, declareConstant_eq_ok_iff.mpr (.inr ⟨hv, rfl⟩)⟩

theorem exists_declareEnum (c : Compilation ω) (t : Token) (variants : List String)
    (f : Log.Filter) : ∃ r, ((c.declareEnum t variants).run f).result = .ok r := by
  rcases hv : c.globals.vet t.text .enum with cause | _
  · exact ⟨_, declareEnum_eq_ok_iff.mpr (.inl ⟨cause, hv, rfl⟩)⟩
  · exact ⟨_, declareEnum_eq_ok_iff.mpr (.inr ⟨hv, rfl⟩)⟩

end Compilation

namespace Intact

variable {alignment : UInt64} {c : Compilation ω}

/-- An arena can always be made. -/
theorem exists_create (h : Intact alignment c) (owner : ArenaOwner) :
    ∃ arena, Arena.create owner c.procs.alignment = .ok arena := by
  rw [h.housed.alignment_eq]
  exact ⟨_, Arena.create_eq_ok_iff.mpr ⟨h.aligned, rfl⟩⟩

/-- **The current reader** has an arena, whether it is a procedure or the program. -/
theorem exists_arena (h : Intact alignment c) : ∃ a, c.arena? c.current = some a := by
  rcases hc : c.current with _ | p
  · exact ⟨c.globals.memory, rfl⟩
  · obtain ⟨proc, hproc⟩ := (h.current p hc).exists_get
    exact ⟨proc.arena, Procedures.arena?_of_get hproc⟩

theorem exists_findMemory (h : Intact alignment c) (name : String) :
    ∃ r, c.findMemory name = .ok r := by
  obtain ⟨a, ha⟩ := h.exists_arena
  exact ⟨_, Compilation.findMemory_eq_ok_iff.mpr ⟨by rw [ha]; rfl, rfl⟩⟩

theorem exists_findVariable (h : Intact alignment c) (name : String) :
    ∃ r, c.findVariable name = .ok r := by
  unfold Compilation.findVariable
  rcases hc : c.current with _ | p
  · exact ⟨_, rfl⟩
  · obtain ⟨proc, hproc⟩ := (h.current p hc).exists_get
    simp only [hproc]
    exact ⟨_, rfl⟩

theorem exists_declareVariable (h : Intact alignment c) (b : Binding) (f : Log.Filter) :
    ∃ c', ((c.declareVariable b).run f).result = .ok c' := by
  rcases hc : c.current with _ | p
  · exact ⟨_, Compilation.declareVariable_eq_ok_iff.mpr (.inl ⟨hc, rfl⟩)⟩
  · obtain ⟨proc, hproc⟩ := (h.current p hc).exists_get
    exact ⟨_, Compilation.declareVariable_eq_ok_iff.mpr (.inr ⟨p, proc, hc, hproc, rfl⟩)⟩

/-- A struct can be defined if its parent is known. -/
theorem exists_declareStruct (t : Token) (fields : List Field) {parent : Option StructId}
    (defaults : Table Nat Token) (f : Log.Filter)
    (hp : ∀ p, parent = some p → c.types.Knows p) :
    ∃ r, ((c.declareStruct t fields parent defaults).run f).result = .ok r := by
  rcases hv : c.globals.vet t.text .struct with cause | _
  · exact ⟨_, Compilation.declareStruct_eq_ok_iff.mpr (.inl ⟨cause, hv, rfl⟩)⟩
  · -- the parent is looked up once, for what there is to inherit
    have hinherited : ∃ i, c.types.inherited parent = .ok i := by
      rcases parent with _ | p
      · exact ⟨_, rfl⟩
      · obtain ⟨st, hst⟩ := Hierarchy.knows_iff.mp (hp p rfl)
        rw [Hierarchy.inherited, Hierarchy.get_eq_ok_iff_struct?.mpr hst]
        exact ⟨_, rfl⟩
    obtain ⟨i, hi⟩ := hinherited
    have hdefine : ((c.types.define ⟨t.text, fields, parent, defaults, c.flags.unpack⟩).run
        f).result = .ok _ := Hierarchy.define_eq_ok_iff.mpr ⟨i, hi, rfl, rfl⟩
    exact ⟨_, Compilation.declareStruct_eq_ok_iff.mpr (.inr ⟨hv, _, _, hdefine, rfl⟩)⟩

/-- A procedure can be entered: the struct that it belongs to is known, and its arena can be made. -/
theorem exists_commits (h : Intact alignment c) {d : ProcedureDef} (hd : d.owner = c.owner)
    (f : Log.Filter) : ∃ c', c.Commits f d c' := by
  obtain ⟨arena, ha⟩ := h.exists_create (.procedure ⟨c.procs.size⟩)
  rcases ho : c.owner with _ | owner
  · have hr : ((Procedures.register c.types d ⟨c.procs.size⟩).run f).result = .ok c.types := by
      rw [Procedures.register, hd, ho]
      rfl
    exact ⟨_, .plain ho ha hr⟩
  · have hk : c.types.Knows owner := h.owner owner ho
    by_cases hs : c.flags.static = true
    · have hr : ((c.types.registerStatic owner d.name ⟨c.procs.size⟩).run f).result = .ok _ :=
        Hierarchy.registerStatic_eq_ok_iff.mpr ⟨hk, rfl⟩
      exact ⟨_, .static ho hs ha hr⟩
    · obtain ⟨types, hr⟩ := Hierarchy.exists_registerMethod h.sound hk d.name ⟨c.procs.size⟩ f
      have hr' : ((Procedures.register c.types d ⟨c.procs.size⟩).run f).result = .ok types := by
        rw [Procedures.register, hd, ho]
        exact hr
      exact ⟨_, .method ho (Bool.eq_false_iff.mpr hs) ha hr'⟩

theorem exists_declareProcedure (h : Intact alignment c) (t : Token)
    (inputs outputs : List ValueType) (block : Block) (f : Log.Filter) :
    ∃ r, ((c.declareProcedure t inputs outputs block).run f).result = .ok r := by
  rcases hv : c.vetProcedureName t.text with cause | _
  · exact ⟨_, Compilation.declareProcedure_eq_ok_iff.mpr (.inl ⟨cause, hv, rfl⟩)⟩
  · -- moving to the name leaves the compilation intact
    have hmoved : Intact alignment (c.moveTo t.location) :=
      ⟨h.aligned, ⟨h.housed.alignment_eq, h.housed.belongs⟩, h.sound, h.owner, h.current, h.callee⟩
    have howner : (c.procedureDef t.text inputs outputs block).owner = c.owner := rfl
    obtain ⟨c', hc'⟩ := hmoved.exists_commits howner f
    have hcommit := Compilation.commitProcedure_eq_ok_iff.mpr ⟨rfl, hc'⟩
    exact ⟨_, Compilation.declareProcedure_eq_ok_iff.mpr (.inr ⟨hv, _, c', hcommit, rfl⟩)⟩

theorem exists_enterBody {id : ProcId} (hp : c.procs.Knows id) (f : Log.Filter) :
    ∃ c', ((c.enterBody id).run f).result = .ok c' :=
  ⟨_, Compilation.enterBody_eq_ok_iff.mpr ⟨fun _ => hp.exists_get, rfl⟩⟩

/-- The caller of a recorded call is known. The callee is looked up by nobody. -/
theorem exists_useProcedure (h : Intact alignment c) (callee : ProcId) (f : Log.Filter) :
    ∃ c', ((c.useProcedure callee).run f).result = .ok c' := by
  have hcall : ∃ procs, ((c.procs.addCall c.current callee).run f).result = .ok procs := by
    rcases hc : c.current with _ | p
    · exact ⟨_, Procedures.addCall_eq_ok_iff.mpr (.inl ⟨rfl, rfl⟩)⟩
    · obtain ⟨proc, hproc⟩ := (h.current p hc).exists_get
      exact ⟨_, Procedures.addCall_eq_ok_iff.mpr (.inr ⟨p, proc, rfl, hproc, rfl⟩)⟩
  obtain ⟨procs, hprocs⟩ := hcall
  exact ⟨_, Compilation.useProcedure_eq_ok_iff.mpr ⟨procs, hprocs, rfl⟩⟩

/-- **The closure is found**: what is led to from outside every procedure is known, and so has its
calls looked up. -/
theorem exists_closure (h : Intact alignment c) :
    ∃ found, c.procs.closure c.procs.topLevel = .ok found := by
  rcases Procedures.closure_cases c.procs c.procs.topLevel with
    ⟨found, hfound, -⟩ | ⟨q, -, hq, r, hr, hrq⟩
  · exact ⟨found, hfound⟩
  · -- a handle at which the walk ends in a fault is that of a callee
    have hk : c.procs.Knows q := by
      rcases Relation.ReflTransGen.cases_tail hrq with rfl | ⟨p, -, hpq⟩
      · exact h.callee none q hr
      · exact h.callee (some p) q hpq
    exact absurd hk hq

theorem exists_analyse (h : Intact alignment c) (f : Log.Filter) :
    ∃ r, (c.analyse.run f).result = .ok r := by
  obtain ⟨found, hfound⟩ := h.exists_closure
  rw [Compilation.result_analyse, hfound]
  exact ⟨_, rfl⟩

theorem exists_handOver (h : Intact alignment c) (f : Log.Filter) :
    ∃ r, (c.handOver.run f).result = .ok r := by
  rcases hc : c.complete with e | _
  · unfold Compilation.handOver
    rw [hc]
    exact ⟨_, rfl⟩
  · obtain ⟨found, hfound⟩ := h.exists_closure
    exact ⟨_, Compilation.handOver_eq_ok_iff.mpr ⟨hc, found, hfound, rfl⟩⟩

end Intact

/-! ### The exception -/

/-- **A region that does not fit**: its name is accepted where the reader is, and it would end past
the last word. -/
def Compilation.Overflows (alignment : UInt64) (c : Compilation ω) : Command ω → Prop
  | .declareMemory t size =>
    c.globals.vet t.text .memory = .ok () ∧ ∃ a, c.arena? c.current = some a ∧
      a.contains t.text = false ∧
      2 ^ 64 - 1 < a.reserved.toNat + Word.ceil alignment.toNat size.toNat
  | _ => False

namespace Compilation

variable {c : Compilation ω} {f : Log.Filter} {t : Token} {size : UInt64} {a : Arena}

/-- A name that is accepted globally leaves the rest to the current reader. -/
theorem declareMemory_of_vet (hv : c.globals.vet t.text .memory = .ok ()) :
    c.declareMemory t size =
      match c.current with
      | none => (c.moveTo t.location).allocateGlobal t.text size
      | some id => (c.moveTo t.location).allocateIn id t.text size := by
  unfold declareMemory
  rw [vetName_of_ok hv]
  rfl

/-- A name that the current reader has given is refused. -/
theorem declareMemory_of_contains (hv : c.globals.vet t.text .memory = .ok ())
    (ha : c.arena? c.current = some a) (hc : a.contains t.text = true) :
    ∃ r, ((c.declareMemory t size).run f).result = .ok r := by
  rw [declareMemory_of_vet hv]
  rcases hcur : c.current with _ | id
  · -- the name would not have been accepted globally
    rw [hcur] at ha
    obtain rfl := Option.some.inj ha
    have hfree := Globals.not_memory_of_free (Globals.vet_eq_ok_iff.mp hv).1
    rw [hc] at hfree
    cases hfree
  · rw [hcur] at ha
    obtain ⟨p, hp, rfl⟩ := Procedures.exists_of_arena? ha
    exact ⟨_, allocateIn_eq_ok_iff.mpr ⟨p, hp, .inl ⟨hc, rfl⟩⟩⟩

/-- A name that is new to the current reader is given to a region if the arena of the reader has
room, and the fault of the arena is the fault of the command. -/
theorem declareMemory_of_new (hv : c.globals.vet t.text .memory = .ok ())
    (ha : c.arena? c.current = some a) (hnew : a.contains t.text = false) :
    (∃ reserved, a.advance size = .ok reserved ∧
      ∃ r, ((c.declareMemory t size).run f).result = .ok r) ∨
    ∃ e, a.advance size = .error e ∧ ((c.declareMemory t size).run f).result = .error e := by
  rw [declareMemory_of_vet hv]
  rcases hcur : c.current with _ | id
  · rw [hcur] at ha
    obtain rfl := Option.some.inj ha
    rcases hadv : c.globals.memory.advance size with e | reserved
    · refine .inr ⟨e, rfl, ?_⟩
      show (((c.moveTo t.location).allocateGlobal t.text size).run f).result = .error e
      rw [allocateGlobal, Step.result_bind, Globals.result_carve,
        show (c.moveTo t.location).globals = c.globals from rfl, hadv]
      rfl
    · exact .inl ⟨reserved, rfl, _, allocateGlobal_eq_ok_iff.mpr ⟨reserved, hadv, rfl⟩⟩
  · rw [hcur] at ha
    obtain ⟨p, hp, rfl⟩ := Procedures.exists_of_arena? ha
    rcases hadv : p.arena.advance size with e | reserved
    · refine .inr ⟨e, rfl, ?_⟩
      show (((c.moveTo t.location).allocateIn id t.text size).run f).result = .error e
      rw [allocateIn, Step.result_bind, Step.result_monadLift,
        show (c.moveTo t.location).procs = c.procs from rfl, hp, ok_bind,
        if_neg (Bool.eq_false_iff.mp hnew), Step.result_bind, Procedures.result_allocate hp, hadv]
      rfl
    · exact .inl ⟨reserved, rfl, _,
        allocateIn_eq_ok_iff.mpr ⟨p, hp, .inr ⟨hnew, reserved, hadv, rfl⟩⟩⟩

end Compilation

/-- **Outcomes with one exception**: a value, or the fault of a sum that is too large. -/
def FaultsOnlyBy {α : Type} (overflow : Prop) (result : Except Fault α) : Prop :=
  (∃ a, result = .ok a) ∧ ¬ overflow ∨ result = .error .addOverflow ∧ overflow

/-- **Memory can be declared**, be it in vain, unless the region does not fit. -/
theorem Intact.declareMemory {alignment : UInt64} {c : Compilation ω} (h : Intact alignment c)
    (t : Token) (size : UInt64) (f : Log.Filter) :
    FaultsOnlyBy (c.Overflows alignment (.declareMemory t size))
      ((c.declareMemory t size).run f).result := by
  obtain ⟨a, ha⟩ := h.exists_arena
  have halign : a.alignment = alignment := (h.housed.belongs _ a ha).alignment_eq
  have hunit : Word.isPowerOfTwo a.alignment = true := halign ▸ h.aligned
  -- all that can be in the way of an overflow, for the one arena that it can be an overflow of
  have hover : c.Overflows alignment (.declareMemory t size) ↔
      c.globals.vet t.text .memory = .ok () ∧ a.contains t.text = false ∧
        a.advance size = .error .addOverflow := by
    rw [Arena.advance_eq_error_iff hunit, halign]
    simp [Compilation.Overflows, ha]
  rw [hover]
  rcases hv : c.globals.vet t.text .memory with cause | _
  · have hrefused : ((c.declareMemory t size).run f).result = .ok _ :=
      Compilation.declareMemory_eq_ok_iff.mpr (.inl ⟨cause, hv, rfl⟩)
    exact .inl ⟨⟨_, hrefused⟩, fun hc => by cases hc.1⟩
  by_cases hc : a.contains t.text = true
  · refine .inl ⟨Compilation.declareMemory_of_contains hv ha hc, fun hn => ?_⟩
    rw [hc] at hn
    cases hn.2.1
  have hnew : a.contains t.text = false := Bool.eq_false_iff.mpr hc
  rcases Compilation.declareMemory_of_new hv ha hnew with ⟨reserved, hadv, hr⟩ | ⟨e, hadv, hr⟩
  · refine .inl ⟨hr, fun hn => ?_⟩
    rw [hadv] at hn
    cases hn.2.2
  · obtain ⟨rfl, -⟩ := (Arena.advance_eq_error_iff hunit).mp hadv
    exact .inr ⟨hr, rfl, hnew, hadv⟩

/-! ### Commands -/

namespace Session

variable [Opcode ω] {f : Log.Filter} {settings : Settings} {s : Session ω}
  {command : Command ω} {events : List (Event ω)} {alignment : UInt64}

/-- Every command but one can be carried out on an intact compilation, with handles that are known.
The rest is a matter of the arenas. -/
theorem act_faultsOnlyBy (h : Intact alignment s.compilation)
    (hc : command.Handles s.compilation.types.Knows s.compilation.procs.Knows) :
    FaultsOnlyBy (s.compilation.Overflows alignment command) ((s.act command).run f).result := by
  cases command with
  | declareMemory t size =>
    rcases h.declareMemory t size f with ⟨⟨r, hr⟩, hn⟩ | ⟨hr, ho⟩
    · exact .inl ⟨⟨_, Step.result_bind_pure hr _⟩, hn⟩
    · refine .inr ⟨?_, ho⟩
      rw [Session.act, Step.result_bind, hr]
      rfl
  -- the commands that look up a handle
  | declareVariable b =>
    obtain ⟨c, hr⟩ := h.exists_declareVariable b f
    exact .inl ⟨⟨_, Step.result_bind_pure hr _⟩, id⟩
  | declareStruct t fields parent defaults =>
    have hp : ∀ p, parent = some p → s.compilation.types.Knows p := by
      rintro p rfl
      exact hc
    obtain ⟨r, hr⟩ := Intact.exists_declareStruct t fields defaults f hp
    exact .inl ⟨⟨_, Step.result_bind_pure hr _⟩, id⟩
  | declareProcedure t inputs outputs block =>
    obtain ⟨r, hr⟩ := h.exists_declareProcedure t inputs outputs block f
    exact .inl ⟨⟨_, Step.result_bind_pure hr _⟩, id⟩
  | enterBody p =>
    obtain ⟨c, hr⟩ := Intact.exists_enterBody hc f
    exact .inl ⟨⟨_, Step.result_bind_pure hr _⟩, id⟩
  | useProcedure callee =>
    obtain ⟨c, hr⟩ := h.exists_useProcedure callee f
    exact .inl ⟨⟨_, Step.result_bind_pure hr _⟩, id⟩
  | analyse =>
    obtain ⟨r, hr⟩ := h.exists_analyse f
    exact .inl ⟨⟨_, Step.result_bind_pure hr _⟩, id⟩
  -- the commands that write to the log and look nothing up
  | report e | record e =>
    exact .inl ⟨⟨_, Step.result_bind_pure (Compilation.result_record _ e) _⟩, id⟩
  | keepPosition name =>
    exact .inl ⟨⟨_, Step.result_bind_pure (Compilation.result_keepPosition _) _⟩, id⟩
  | detourTo name source =>
    exact .inl ⟨⟨_, Step.result_bind_pure (Compilation.result_detourTo _ source) _⟩, id⟩
  | returnTo name =>
    refine .inl ⟨?_, id⟩
    rw [Session.act]
    split
    · exact ⟨_, rfl⟩
    · next p _ => exact ⟨_, Step.result_bind_pure (Compilation.result_returnTo _ p) _⟩
  | emit op =>
    exact .inl ⟨⟨_, Step.result_bind_pure (Compilation.result_emit _ op) _⟩, id⟩
  | patch ip op =>
    refine .inl ⟨?_, id⟩
    rw [Session.act]
    split <;> exact ⟨_, rfl⟩
  | enterBlock kind =>
    exact .inl ⟨⟨_, Step.result_bind_pure (Compilation.result_enterBlock _ kind) _⟩, id⟩
  | leaveBlockBy closing =>
    obtain ⟨r, hr⟩ := Compilation.exists_leaveBlockBy s.compilation closing f
    exact .inl ⟨⟨_, Step.result_bind_pure hr _⟩, id⟩
  | declareConstant t value =>
    obtain ⟨r, hr⟩ := Compilation.exists_declareConstant s.compilation t value f
    exact .inl ⟨⟨_, Step.result_bind_pure hr _⟩, id⟩
  | declareEnum t variants =>
    obtain ⟨r, hr⟩ := Compilation.exists_declareEnum s.compilation t variants f
    exact .inl ⟨⟨_, Step.result_bind_pure hr _⟩, id⟩
  | _ => exact .inl ⟨⟨_, rfl⟩, id⟩

omit [Opcode ω] in
/-- A report has an outcome, and in the mode `collect` the process goes on after it. -/
theorem exists_report (c : Compilation ω) (e : Diagnostic) (f : Log.Filter) :
    ∃ after, ((c.report e).run f).result = .ok after ∧
      (c.reporter.mode = .collect → ∃ c', after = .goesOn c') := by
  have hreport : ∃ after, ((c.reporter.report e).run f).result = .ok after ∧
      (c.reporter.mode = .collect → ∃ r, after = .goesOn r) := by
    unfold Reporter.report
    rcases hm : c.reporter.mode with _ | _
    · -- an error is fatal: the process ends, and this is its outcome
      let r : Reporter :=
        { c.reporter with sink := c.reporter.sink.offer (Reporter.line c.reporter.color e) }
      refine ⟨.ends r, ?_, fun h => by cases h⟩
      rw [Step.result_bind, Reporter.result_write, ok_bind, Step.result_bind, Step.result_note]
      rfl
    · refine ⟨.goesOn (c.reporter.recorded e), ?_, fun _ => ⟨_, rfl⟩⟩
      rw [Step.result_map, Reporter.result_record]
      rfl
  obtain ⟨after, hafter, hmode⟩ := hreport
  refine ⟨_, Step.result_bind_pure hafter _, fun h => ?_⟩
  obtain ⟨r, rfl⟩ := hmode h
  exact ⟨_, rfl⟩

/-- What the mode makes of a command: only a report looks at it. -/
theorem perform_faultsOnlyBy
    (h : FaultsOnlyBy (s.compilation.Overflows alignment command) ((s.act command).run f).result) :
    FaultsOnlyBy (s.compilation.Overflows alignment command) ((s.perform command).run f).result ∧
      (s.compilation.reporter.mode = .collect → ¬ s.compilation.Overflows alignment command →
        ∃ reply s', Performs f s command reply s') := by
  -- any other command is performed by acting, and the process goes on
  have of_act (hp : s.perform command = Aftermath.goesOn <$> s.act command) :
      FaultsOnlyBy (s.compilation.Overflows alignment command)
          ((s.perform command).run f).result ∧
        (s.compilation.reporter.mode = .collect → ¬ s.compilation.Overflows alignment command →
          ∃ reply s', Performs f s command reply s') := by
    unfold Performs
    rw [hp, Step.result_map]
    rcases h with ⟨⟨⟨reply, s'⟩, hr⟩, hn⟩ | ⟨hr, ho⟩
    · rw [hr]
      exact ⟨.inl ⟨⟨_, rfl⟩, hn⟩, fun _ _ => ⟨reply, s', rfl⟩⟩
    · rw [hr]
      exact ⟨.inr ⟨rfl, ho⟩, fun _ hn => absurd ho hn⟩
  cases command with
  | report e =>
    obtain ⟨after, hafter, hmode⟩ := exists_report s.compilation e f
    have hperform := Step.result_bind_pure hafter fun after =>
      after.map fun c => (Reply.done, s.withCompilation c)
    refine ⟨.inl ⟨⟨_, hperform⟩, id⟩, fun hm _ => ?_⟩
    obtain ⟨c', rfl⟩ := hmode hm
    exact ⟨.done, s.withCompilation c', hperform⟩
  | _ => exact of_act rfl

/-- **A session in which nothing fails** but the sum that is too large. -/
structure Faultless (f : Log.Filter) (alignment : UInt64) (events : List (Event ω))
    (s : Session ω) : Prop where
  /-- A command with handles that were given out has an outcome, or it is the declaration of a
  region that does not fit, and ends in the fault of the addition. -/
  perform : ∀ command, command.Handles (GivesStruct events) (GivesProcedure events) →
    FaultsOnlyBy (s.compilation.Overflows alignment command) ((s.perform command).run f).result
  /-- Unless the parser wants errors to be fatal, the process goes on as well. -/
  goesOn : s.compilation.reporter.mode = .collect →
    ∀ command, command.Handles (GivesStruct events) (GivesProcedure events) →
      ¬ s.compilation.Overflows alignment command → ∃ reply s', Performs f s command reply s'
  /-- A value that may be refused can be taken. -/
  accept : ∀ (α : Type) (r : Except Diagnostic α),
    ∃ after, ((s.compilation.accept r).run f).result = .ok after
  /-- Look-ups through the current procedure succeed. -/
  findMemory : ∀ name, ∃ r, s.compilation.findMemory name = .ok r
  findVariable : ∀ name, ∃ r, s.compilation.findVariable name = .ok r
  /-- The compilation can be handed over, or is said to be incomplete. -/
  handOver : ∃ r, (s.compilation.handOver.run f).result = .ok r

/-- **Overflow is the only fault there is.** With a power of two as alignment a compilation can be
made, and as long as its handles are not made up nothing that is done with it ends in a fault, under
any log filter, but the declaration of a region whose name has been accepted and which would end
past the last word. Such a declaration always does. -/
theorem fault_only_by_overflow (ha : Word.isPowerOfTwo settings.alignment = true) :
    (∀ reporter, ∃ c : Compilation ω, Compilation.create settings reporter = .ok c) ∧
      ∀ events (s : Session ω), Reached f settings events s → Proper events →
        Faultless f settings.alignment events s := by
  constructor
  · intro reporter
    exact ⟨_, Compilation.create_eq_ok_iff.mpr ⟨_, Arena.create_eq_ok_iff.mpr ⟨ha, rfl⟩, rfl⟩⟩
  · intro events s h hp
    have hintact := intact_of_reached h hp
    -- a handle that was given out can be looked up, which is what the operations ask for
    obtain ⟨hstructs, hprocs⟩ := knows_iff_gives h
    have hact : ∀ command : Command ω,
        command.Handles (GivesStruct events) (GivesProcedure events) →
        FaultsOnlyBy (s.compilation.Overflows settings.alignment command)
          ((s.act command).run f).result := by
      intro command hc
      rw [← hstructs, ← hprocs] at hc
      exact act_faultsOnlyBy hintact hc
    refine ⟨fun command hc => (perform_faultsOnlyBy (hact command hc)).1,
      fun hm command hc => (perform_faultsOnlyBy (hact command hc)).2 hm, ?_,
      hintact.exists_findMemory, hintact.exists_findVariable, hintact.exists_handOver f⟩
    intro α r
    rcases r with e | a
    · obtain ⟨after, hafter, -⟩ := exists_report s.compilation e f
      exact ⟨_, Step.result_bind_pure hafter _⟩
    · exact ⟨_, rfl⟩

/-- The method `area` of a shape takes all memory but eight bytes. -/
def filled : List (Command Demo.Instruction) :=
  [.declareStruct ⟨"Shape", .unknown⟩ [] none ∅, .setOwner (some ⟨0⟩),
    .declareProcedure ⟨"area", .unknown⟩ [] [.int] ⟨.procedure, 0, none⟩, .enterBody ⟨0⟩,
    .declareMemory ⟨"pixels", .unknown⟩ 0xfffffffffffffff8]

/-- The struct is defined before it is read, and the method before its body is. -/
theorem proper_filled {c : Compilation Demo.Instruction}
    (hc : Compilation.create .default (.create .collect false) = .ok c) :
    Proper ((start c).play .off filled).1 := by
  cases hc
  show Proper ([] ++ [_] ++ [_] ++ [_] ++ [_] ++ [_])
  simp only [proper_append_iff]
  refine ⟨⟨⟨⟨⟨.nil, ?_⟩, ?_⟩, ?_⟩, ?_⟩, ?_⟩
  · trivial
  · exact ⟨_, .head _, rfl, rfl⟩
  · trivial
  · exact ⟨_, .tail _ (.tail _ (.head _)), rfl, rfl⟩
  · trivial

/-- A single byte is taken up to eight, which is one too many. An empty region fits. -/
theorem brush_does_not_fit :
    ∃ c, Compilation.create .default (.create .collect false) = .ok c ∧
      Proper ((start c).play .off filled).1 ∧
      ((((start c).play .off filled).2.perform (.declareMemory ⟨"brush", .unknown⟩ 1)).run
        .off).result = .error .addOverflow ∧
      ∃ reply s', Performs .off ((start c).play .off filled).2
        (.declareMemory ⟨"brush", .unknown⟩ 0) reply s' := by
  have haligned : Word.isPowerOfTwo Settings.default.alignment = true := by decide
  obtain ⟨hcreate, hfaultless⟩ :=
    fault_only_by_overflow (ω := Demo.Instruction) (f := .off) haligned
  obtain ⟨c, hc⟩ := hcreate (.create .collect false)
  have hr : Reached .off .default ((start c).play .off filled).1 ((start c).play .off filled).2 :=
    ⟨.create .collect false, c, hc, run_play .off (start c) filled⟩
  have hsession := hfaultless _ _ hr (proper_filled hc)
  refine ⟨c, hc, proper_filled hc, ?_, ?_⟩
  · rcases hsession.perform (.declareMemory ⟨"brush", .unknown⟩ 1) trivial with ⟨-, hn⟩ | ⟨ho, -⟩
    · -- one byte does not fit
      cases hc
      refine absurd ⟨rfl, _, rfl, rfl, ?_⟩ hn
      decide
    · exact ho
  · cases hc
    refine hsession.goesOn rfl (.declareMemory ⟨"brush", .unknown⟩ 0) trivial ?_
    rintro ⟨-, a, ha, -, hpast⟩
    cases ha
    revert hpast
    decide

end Session

end StackFront
