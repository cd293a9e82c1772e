import StackFront.Proofs.Compilation.Run

/-!
# What a command leaves alone

A session is taken apart into named parts, and each command is said to write some of them. A step
leaves every part alone that its command does not write (`Performs.keeps`), whether the command is
carried out or refused.

What holds of a part along a run is then a matter of the commands that write it. Two parts are
written by several commands, the procedures and the global names; what these make of them is said by
`Rewrites` and `Grants`.
-/

namespace StackFront

/-- **The parts of a session**: those of its compilation, and the positions kept. -/
inductive Part where
  | blocks | source | queue | location | streams
  | globals | types | procs | outerVariables
  | current | owner | flags | regions
  | instructions | strings | used | reporter
  | bindings | bindingSlots | routes | deferred
  | kept
deriving DecidableEq

variable {ω : Type}

/-- **Two sessions agree in a part.** -/
def Part.Agree (s s' : Session ω) : Part → Prop
  | .blocks => s'.compilation.position.blocks = s.compilation.position.blocks
  | .source => s'.compilation.position.source = s.compilation.position.source
  | .queue => s'.compilation.position.queue = s.compilation.position.queue
  | .location => s'.compilation.position.location = s.compilation.position.location
  | .streams => s'.compilation.streams = s.compilation.streams
  | .globals => s'.compilation.globals = s.compilation.globals
  | .types => s'.compilation.types = s.compilation.types
  | .procs => s'.compilation.procs = s.compilation.procs
  | .outerVariables => s'.compilation.variables = s.compilation.variables
  | .current => s'.compilation.current = s.compilation.current
  | .owner => s'.compilation.owner = s.compilation.owner
  | .flags => s'.compilation.flags = s.compilation.flags
  | .regions => s'.compilation.regions = s.compilation.regions
  | .instructions => s'.compilation.instructions = s.compilation.instructions
  | .strings => s'.compilation.strings = s.compilation.strings
  | .used => s'.compilation.used = s.compilation.used
  | .reporter => s'.compilation.reporter = s.compilation.reporter
  | .bindings => s'.compilation.bindings = s.compilation.bindings
  | .bindingSlots => s'.compilation.bindingSlots = s.compilation.bindingSlots
  | .routes => s'.compilation.routes = s.compilation.routes
  | .deferred => s'.compilation.deferred = s.compilation.deferred
  | .kept => s'.kept = s.kept

/-- **The parts that a command writes.** -/
def Command.writes : Command ω → List Part
  | .report _ | .record _ | .withMode _ | .drain => [.reporter]
  | .moveTo _ | .vetName _ _ => [.location]
  | .openStream _ | .pull _ => [.streams]
  | .setSource _ => [.source]
  | .read => [.queue, .location, .streams]
  -- looking ahead does not move
  | .look => [.queue, .streams]
  | .enqueue _ | .putBack _ => [.queue]
  | .keepPosition _ => [.kept]
  | .detourTo _ _ => [.source, .queue, .kept]
  -- coming back is the only way in which a position is written as a whole
  | .returnTo _ => [.blocks, .source, .queue, .location, .kept]
  | .emit _ | .patch _ _ => [.instructions]
  | .addString _ => [.strings]
  | .enterBlock _ | .leaveBlockBy _ => [.blocks]
  | .enterRegion _ | .leaveRegion => [.regions]
  | .declareConstant _ _ | .declareEnum _ _ => [.location, .globals]
  -- memory and variables belong to the current procedure, or to the outside
  | .declareMemory _ _ => [.location, .globals, .procs]
  | .declareVariable _ => [.outerVariables, .procs]
  | .setFlags _ => [.flags]
  | .setOwner _ => [.owner]
  | .declareStruct _ _ _ _ => [.location, .globals, .types]
  | .declareProcedure _ _ _ _ => [.location, .globals, .types, .procs]
  | .enterBody _ | .leaveBody => [.current]
  | .useProcedure _ => [.procs]
  | .pushBinding _ => [.bindings, .bindingSlots]
  | .pushRoute _ _ => [.routes]
  | .pushDeferred _ => [.deferred]
  | .analyse => [.used]
  | .procedureOf _ | .complete => []

namespace Session

variable [Opcode ω] {f : Log.Filter} {s s' : Session ω} {command : Command ω} {reply : Reply}

/-- **A step leaves every part alone that its command does not write.** -/
theorem Performs.keeps (h : Performs f s command reply s') (part : Part)
    (hp : part ∉ command.writes) : part.Agree s s' := by
  replace h := h.act
  -- The cases bring the session after the step into sight, as an update of the one before it. They
  -- are closed together at the end: a part is untouched by the update, or else it is written.
  cases command
  case' report e | record e =>
    obtain ⟨c, hc, hs⟩ := Step.exists_of_bind_pure h
    rw [Compilation.result_record] at hc
    cases hc
    cases hs
  case' withMode | drain | moveTo | openStream | pull | setSource | enqueue | putBack
      | addString | procedureOf | enterRegion | vetName | setFlags | setOwner | leaveBody
      | pushBinding | pushRoute | pushDeferred | complete =>
    cases h
  -- a token is taken from the queue, or past it
  case' read =>
    cases h
    change part.Agree s (s.withCompilation s.compilation.read.2)
    rcases hq : s.compilation.position.queue with _ | ⟨t, queue⟩
    case' nil => rw [Compilation.read_of_nil hq]
    case' cons => rw [Compilation.read_of_cons hq]
  case' look =>
    cases h
    change part.Agree s (s.withCompilation s.compilation.look.2)
    rcases hq : s.compilation.position.queue with _ | ⟨t, queue⟩
    case' nil => rw [Compilation.look_of_nil hq]
    case' cons => rw [Compilation.look_of_cons hq]
  case' keepPosition name =>
    obtain ⟨p, -, hs⟩ := Step.exists_of_bind_pure h
    cases hs
  case' detourTo name source =>
    obtain ⟨⟨p, c⟩, hr, hs⟩ := Step.exists_of_bind_pure h
    rw [Compilation.result_detourTo] at hr
    cases hr
    cases hs
  case' returnTo name =>
    rw [Session.act] at h
    rcases hk : s.kept.get? name with _ | p <;> rw [hk] at h
    case' none => cases h
    case' some =>
      obtain ⟨c, hr, hs⟩ := Step.exists_of_bind_pure h
      rw [Compilation.result_returnTo] at hr
      cases hr
      cases hs
  case' emit op =>
    obtain ⟨r, hr, hs⟩ := Step.exists_of_bind_pure h
    rw [Compilation.result_emit] at hr
    cases hr
    cases hs
  case' patch ip op =>
    rw [Session.act, Compilation.patch?] at h
    by_cases hi : ip < s.compilation.instructions.size
    case' pos => rw [if_pos hi] at h
    case' neg => rw [if_neg hi] at h
    all_goals cases h
  case' enterBlock kind =>
    obtain ⟨r, hr, hs⟩ := Step.exists_of_bind_pure h
    rw [Compilation.result_enterBlock] at hr
    cases hr
    cases hs
  case' leaveBlockBy closing =>
    obtain ⟨r, hr, hs⟩ := Step.exists_of_bind_pure h
    rcases Compilation.leaveBlockBy_eq_ok_iff.mp hr with
      ⟨cause, -, rfl⟩ | ⟨top, rest, -, -, rfl⟩ <;> cases hs
  case' leaveRegion =>
    rw [Session.act, Compilation.leaveRegion] at h
    rcases hr : s.compilation.regions.leave with cause | regions <;> rw [hr] at h <;> cases h
  -- a declaration that is turned down has moved the location as well
  case' declareConstant t value =>
    obtain ⟨r, hr, hs⟩ := Step.exists_of_bind_pure h
    rcases Compilation.declareConstant_eq_ok_iff.mp hr with ⟨cause, -, rfl⟩ | ⟨-, rfl⟩ <;> cases hs
  case' declareEnum t variants =>
    obtain ⟨r, hr, hs⟩ := Step.exists_of_bind_pure h
    rcases Compilation.declareEnum_eq_ok_iff.mp hr with ⟨cause, -, rfl⟩ | ⟨-, rfl⟩ <;> cases hs
  case' declareMemory t size =>
    obtain ⟨r, hr, hs⟩ := Step.exists_of_bind_pure h
    rcases Compilation.declareMemory_eq_ok_iff.mp hr with
      ⟨cause, -, rfl⟩ | ⟨-, ⟨-, hg⟩ | ⟨id, -, hl⟩⟩
    case' inl => cases hs
    case' inr.inl =>
      obtain ⟨reserved, -, rfl⟩ := Compilation.allocateGlobal_eq_ok_iff.mp hg
      cases hs
    case' inr.inr =>
      obtain ⟨p, -, ⟨-, rfl⟩ | ⟨-, reserved, -, rfl⟩⟩ := Compilation.allocateIn_eq_ok_iff.mp hl
        <;> cases hs
  case' declareVariable b =>
    obtain ⟨c, hr, hs⟩ := Step.exists_of_bind_pure h
    rcases Compilation.declareVariable_eq_ok_iff.mp hr with ⟨-, rfl⟩ | ⟨id, p, -, -, rfl⟩ <;>
      cases hs
  case' declareStruct t fields parent defaults =>
    obtain ⟨r, hr, hs⟩ := Step.exists_of_bind_pure h
    rcases Compilation.declareStruct_eq_ok_iff.mp hr with
      ⟨cause, -, rfl⟩ | ⟨-, id, types, -, rfl⟩ <;> cases hs
  case' declareProcedure t inputs outputs block =>
    obtain ⟨r, hr, hs⟩ := Step.exists_of_bind_pure h
    rcases Compilation.declareProcedure_eq_ok_iff.mp hr with
      ⟨cause, -, rfl⟩ | ⟨-, id, c, hc, rfl⟩
    case' inl => cases hs
    case' inr =>
      obtain ⟨d, arena, types, -, rfl⟩ := Compilation.commitProcedure_of_ok hc
      cases hs
  case' enterBody id =>
    obtain ⟨c, hr, hs⟩ := Step.exists_of_bind_pure h
    obtain ⟨-, rfl⟩ := Compilation.enterBody_eq_ok_iff.mp hr
    cases hs
  case' useProcedure callee =>
    obtain ⟨c, hr, hs⟩ := Step.exists_of_bind_pure h
    obtain ⟨procs, -, rfl⟩ := Compilation.useProcedure_eq_ok_iff.mp hr
    cases hs
  case' analyse =>
    obtain ⟨⟨used, c⟩, hr, hs⟩ := Step.exists_of_bind_pure h
    rw [Compilation.result_analyse] at hr
    rcases hc : s.compilation.procs.closure s.compilation.procs.topLevel with e | used' <;>
      rw [hc] at hr <;> cases hr
    cases hs
  all_goals cases part <;> first | rfl | simp [Command.writes] at hp

/-! ### The procedures -/

/-- **What a command makes of the procedures.** Four commands can change them, and each of these can
be turned down as well. -/
inductive Rewrites (f : Log.Filter) (c : Compilation ω) : Command ω → Procedures → Prop
  | unchanged {command : Command ω} (h : ∀ q, command ≠ .useProcedure q) :
      Rewrites f c command c.procs
  | defined {t : Token} {inputs outputs : List ValueType} {block : Block} (d : ProcedureDef)
      {arena : Arena}
      (ha : Arena.create (.procedure ⟨c.procs.size⟩) c.procs.alignment = .ok arena) :
      Rewrites f c (.declareProcedure t inputs outputs block) (c.procs.grown d arena)
  | allocated {t : Token} {size reserved : UInt64} {id : ProcId} {p : Procedure}
      (hc : c.current = some id) (hp : c.procs.get id = .ok p) :
      Rewrites f c (.declareMemory t size)
        (c.procs.update id fun p' => { p' with arena := p.arena.extended t.text reserved })
  | bound {b : Binding} {id : ProcId} :
      Rewrites f c (.declareVariable b)
        (c.procs.update id fun p => { p with «variables» := p.variables.insert b.name b })
  | used {callee : ProcId} {procs : Procedures}
      (hc : ((c.procs.addCall c.current callee).run f).result = .ok procs) :
      Rewrites f c (.useProcedure callee) procs

theorem Performs.rewrites (h : Performs f s command reply s') :
    Rewrites f s.compilation command s'.compilation.procs := by
  cases command with
  | declareProcedure t inputs outputs block =>
    obtain ⟨r, hr, hs⟩ := Step.exists_of_bind_pure h.act
    rcases Compilation.declareProcedure_eq_ok_iff.mp hr with
      ⟨cause, -, rfl⟩ | ⟨-, id, c, hc, rfl⟩
    · cases hs
      exact .unchanged (by simp)
    · obtain ⟨d, arena, types, ha, rfl⟩ := Compilation.commitProcedure_of_ok hc
      cases hs
      exact .defined d ha
  | declareMemory t size =>
    obtain ⟨r, hr, hs⟩ := Step.exists_of_bind_pure h.act
    rcases Compilation.declareMemory_eq_ok_iff.mp hr with
      ⟨cause, -, rfl⟩ | ⟨-, ⟨-, hg⟩ | ⟨id, hcur, hl⟩⟩
    · cases hs
      exact .unchanged (by simp)
    · -- global memory is no matter of the procedures
      obtain ⟨reserved, -, rfl⟩ := Compilation.allocateGlobal_eq_ok_iff.mp hg
      cases hs
      exact .unchanged (by simp)
    · obtain ⟨p, hp, ⟨-, rfl⟩ | ⟨-, reserved, -, rfl⟩⟩ := Compilation.allocateIn_eq_ok_iff.mp hl
      · cases hs
        exact .unchanged (by simp)
      · cases hs
        exact .allocated hcur hp
  | declareVariable b =>
    obtain ⟨c, hr, hs⟩ := Step.exists_of_bind_pure h.act
    rcases Compilation.declareVariable_eq_ok_iff.mp hr with ⟨-, rfl⟩ | ⟨id, p, -, -, rfl⟩
    · cases hs
      exact .unchanged (by simp)
    · cases hs
      exact .bound
  | useProcedure callee =>
    obtain ⟨c, hr, hs⟩ := Step.exists_of_bind_pure h.act
    obtain ⟨procs, hc, rfl⟩ := Compilation.useProcedure_eq_ok_iff.mp hr
    cases hs
    exact .used hc
  | _ =>
    have hprocs : s'.compilation.procs = s.compilation.procs :=
      h.keeps .procs (by simp [Command.writes])
    rw [hprocs]
    exact .unchanged (by simp)

omit [Opcode ω] in
/-- What a change of a procedure leaves alone, whatever the change, is the same after every command
that defines none. -/
theorem Rewrites.map_getElem?_eq {c : Compilation ω} {procs : Procedures} {β : Type}
    {part : Procedure → β} (h : Rewrites f c command procs)
    (hd : ∀ t inputs outputs block, command ≠ .declareProcedure t inputs outputs block)
    (ha : (∃ t size, command = .declareMemory t size) → ∀ p arena, part { p with arena } = part p)
    (hv : (∃ b, command = .declareVariable b) → ∀ p vs,
      part { p with «variables» := vs } = part p)
    (hc : ∀ p calls, part { p with calls } = part p) (i : Nat) :
    procs.table[i]?.map part = c.procs.table[i]?.map part := by
  cases h with
  | unchanged => rfl
  | defined => exact absurd rfl (hd _ _ _ _)
  | allocated => exact Procedures.map_getElem?_update (fun p _ => ha ⟨_, _, rfl⟩ p _) i
  | bound => exact Procedures.map_getElem?_update (fun p _ => hv ⟨_, rfl⟩ p _) i
  | used hu =>
    rcases Procedures.addCall_eq_ok_iff.mp hu with ⟨-, rfl⟩ | ⟨id, p, -, -, rfl⟩
    · rfl
    · exact Procedures.map_getElem?_update (fun p _ => hc p _) i

/-! ### The global names -/

/-- **What a command makes of the global names.** Five commands can give one out, each in a table of
its own, and each of these can be turned down as well. -/
inductive Grants (c : Compilation ω) : Command ω → Globals → Prop
  | unchanged {command : Command ω} : Grants c command c.globals
  | constant {t : Token} {value : Int} :
      Grants c (.declareConstant t value)
        { c.globals with constants := c.globals.constants.insert t.text value }
  | enum {t : Token} {variants : List String} :
      Grants c (.declareEnum t variants)
        { c.globals with enums := c.globals.enums.insert t.text variants }
  | memory {t : Token} {size reserved : UInt64} (hc : c.current = none) :
      Grants c (.declareMemory t size)
        { c.globals with memory := c.globals.memory.extended t.text reserved }
  | struct {t : Token} {fields : List Field} {parent : Option StructId}
      {defaults : Table Nat Token} {id : StructId} :
      Grants c (.declareStruct t fields parent defaults) (c.globals.enterStruct t.text id)
  | procedure {t : Token} {inputs outputs : List ValueType} {block : Block} {id : ProcId}
      (ho : c.owner = none) :
      Grants c (.declareProcedure t inputs outputs block) (c.globals.enterProcedure t.text id)

theorem Performs.grants (h : Performs f s command reply s') :
    Grants s.compilation command s'.compilation.globals := by
  cases command with
  | declareConstant t value =>
    obtain ⟨r, hr, hs⟩ := Step.exists_of_bind_pure h.act
    rcases Compilation.declareConstant_eq_ok_iff.mp hr with ⟨cause, -, rfl⟩ | ⟨-, rfl⟩
    · cases hs
      exact .unchanged
    · cases hs
      exact .constant
  | declareEnum t variants =>
    obtain ⟨r, hr, hs⟩ := Step.exists_of_bind_pure h.act
    rcases Compilation.declareEnum_eq_ok_iff.mp hr with ⟨cause, -, rfl⟩ | ⟨-, rfl⟩
    · cases hs
      exact .unchanged
    · cases hs
      exact .enum
  | declareMemory t size =>
    obtain ⟨r, hr, hs⟩ := Step.exists_of_bind_pure h.act
    rcases Compilation.declareMemory_eq_ok_iff.mp hr with
      ⟨cause, -, rfl⟩ | ⟨-, ⟨hcur, hg⟩ | ⟨id, -, hl⟩⟩
    · cases hs
      exact .unchanged
    · obtain ⟨reserved, -, rfl⟩ := Compilation.allocateGlobal_eq_ok_iff.mp hg
      cases hs
      exact .memory hcur
    · -- memory of a procedure has no global name
      obtain ⟨p, -, ⟨-, rfl⟩ | ⟨-, reserved, -, rfl⟩⟩ := Compilation.allocateIn_eq_ok_iff.mp hl
      · cases hs
        exact .unchanged
      · cases hs
        exact .unchanged
  | declareStruct t fields parent defaults =>
    obtain ⟨r, hr, hs⟩ := Step.exists_of_bind_pure h.act
    rcases Compilation.declareStruct_eq_ok_iff.mp hr with
      ⟨cause, -, rfl⟩ | ⟨-, id, types, -, rfl⟩
    · cases hs
      exact .unchanged
    · cases hs
      exact .struct
  | declareProcedure t inputs outputs block =>
    obtain ⟨r, hr, hs⟩ := Step.exists_of_bind_pure h.act
    rcases Compilation.declareProcedure_eq_ok_iff.mp hr with
      ⟨cause, -, rfl⟩ | ⟨-, id, c, hc, rfl⟩
    · cases hs
      exact .unchanged
    · obtain ⟨d, arena, types, -, rfl⟩ := Compilation.commitProcedure_of_ok hc
      cases hs
      rcases ho : s.compilation.owner with _ | owner
      · have hnone : (s.compilation.moveTo t.location).owner.isNone = true :=
          Option.isNone_iff_eq_none.mpr ho
        simp only [Session.withCompilation, hnone, if_true]
        exact .procedure ho
      · -- a method is found through its owner
        have hsome : (s.compilation.moveTo t.location).owner.isNone = false :=
          (congrArg Option.isNone ho).trans rfl
        simp only [Session.withCompilation, hsome, Bool.false_eq_true, if_false]
        exact .unchanged
  | _ =>
    have hglobals : s'.compilation.globals = s.compilation.globals :=
      h.keeps .globals (by simp [Command.writes])
    rw [hglobals]
    exact .unchanged

/-! ### What is being read -/

/-- The struct that is being read is the one that the parser has set. -/
theorem Performs.owner_cases (h : Performs f s command reply s') :
    s'.compilation.owner = s.compilation.owner ∨ command = .setOwner s'.compilation.owner := by
  cases command with
  | setOwner owner =>
    cases h.act
    exact .inr rfl
  | _ => exact .inl (h.keeps .owner (by simp [Command.writes]))

/-- The procedure whose body is being read is the one that has been entered. -/
theorem Performs.current_cases (h : Performs f s command reply s') :
    s'.compilation.current = s.compilation.current ∨ s'.compilation.current = none ∨
      ∃ p, command = .enterBody p ∧ s'.compilation.current = some p := by
  cases command with
  | enterBody p =>
    obtain ⟨c, hr, hs⟩ := Step.exists_of_bind_pure h.act
    obtain ⟨-, rfl⟩ := Compilation.enterBody_eq_ok_iff.mp hr
    cases hs
    exact .inr (.inr ⟨p, rfl, rfl⟩)
  | leaveBody =>
    cases h.act
    exact .inr (.inl rfl)
  | _ => exact .inl (h.keeps .current (by simp [Command.writes]))

end Session

end StackFront
