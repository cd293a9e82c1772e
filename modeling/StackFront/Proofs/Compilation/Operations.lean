import StackFront.Compilation.Program
import StackFront.Proofs.Memory.Allocation

/-!
# What the operations of a compilation leave behind

One lemma for each operation that writes to the log or can be refused: the value it yields and the
compilation it leaves, without its log. The operations that define something under a name come in
two cases. Either the name is turned down, and nothing but the current location has moved
(`refusedAt`), or the definition is carried out on the compilation as it stands at the name.

A definition that is carried out can still end in a fault, and then there is nothing it leaves.
-/

namespace StackFront

variable {f : Log.Filter}

theorem ok_eq_ok_iff {ε α : Type} {a b : α} : (Except.ok a : Except ε α) = .ok b ↔ b = a :=
  (Except.ok.injEq a b).to_iff.trans eq_comm

/-- A step whose value is only rewrapped succeeds with what the step before it yields. -/
theorem Step.exists_of_bind_pure {α β : Type} {x : Step α} {k : α → β} {b : β}
    (h : ((x >>= fun a => (pure (k a) : Step β)).run f).result = .ok b) :
    ∃ a, (x.run f).result = .ok a ∧ k a = b := by
  rw [Step.result_bind] at h
  rcases hx : (x.run f).result with e | a
  · rw [hx] at h
    cases h
  · rw [hx] at h
    exact ⟨a, rfl, Except.ok.inj h⟩

/-! ### Reporters -/

namespace Reporter

/-- The reporter when an error has been written and recorded. -/
def recorded (r : Reporter) (e : Diagnostic) : Reporter :=
  { r with sink := r.sink.offer (line r.color e), errors := r.errors ++ [e] }

theorem result_write (r : Reporter) (e : Diagnostic) :
    ((r.write e).run f).result = .ok { r with sink := r.sink.offer (line r.color e) } := by
  unfold write
  by_cases hb : r.sink.broken = true
  · simp only [hb, ↓reduceIte, Step.result_bind, Step.result_note, ok_bind]
    rfl
  · simp only [hb]
    rfl

theorem result_record (r : Reporter) (e : Diagnostic) :
    ((r.record e).run f).result = .ok (r.recorded e) := by
  unfold record
  rw [Step.result_bind, result_write, ok_bind, Step.result_bind, Step.result_note]
  rfl

/-- **A report after which the process goes on** has recorded the error and done nothing else. -/
theorem report_of_goesOn {r r' : Reporter} {e : Diagnostic}
    (h : ((r.report e).run f).result = .ok (.goesOn r')) : r' = r.recorded e := by
  unfold report at h
  rcases hm : r.mode with _ | _
  · -- in the mode `fatal` the process ends
    rw [hm, Step.result_bind, result_write, ok_bind, Step.result_bind, Step.result_note] at h
    cases h
  · -- in the mode `collect` it goes on with the error recorded
    rw [hm, Step.result_map, result_record] at h
    cases h
    rfl

end Reporter

/-! ### Global names -/

namespace Globals

theorem result_addConstant (g : Globals) (name : String) (value : Int) :
    ((g.addConstant name value).run f).result =
      .ok ((g.vet name .constant).map fun _ =>
        { g with constants := g.constants.insert name value }) := by
  unfold addConstant
  rcases g.vet name .constant with cause | _
  · rfl
  · simp only [Step.result_bind, Step.result_note, ok_bind, Step.result_pure]
    rfl

theorem result_addEnum (g : Globals) (name : String) (variants : List String) :
    ((g.addEnum name variants).run f).result =
      .ok ((g.vet name .enum).map fun _ => { g with enums := g.enums.insert name variants }) := by
  unfold addEnum
  rcases g.vet name .enum with cause | _
  · rfl
  · simp only [Step.result_bind, Step.result_note, ok_bind, Step.result_pure]
    rfl

theorem result_carve (g : Globals) (name : String) (size : UInt64) :
    ((g.carve name size).run f).result = (g.memory.advance size).map fun reserved =>
      (g.memory.nextRegion name, { g with memory := g.memory.extended name reserved }) := by
  unfold carve
  rw [Step.result_bind, Arena.result_allocate]
  rcases g.memory.advance size with e | reserved <;> rfl

end Globals

/-! ### Procedures -/

namespace Procedures

variable {ps ps' : Procedures} {types types' : Hierarchy} {d : ProcedureDef} {id : ProcId}

/-- The procedures with one more, which has the next handle. -/
def grown (ps : Procedures) (d : ProcedureDef) (arena : Arena) : Procedures :=
  { ps with table := ps.table.push (ps.build d arena) }

theorem getElem?_grown (d : ProcedureDef) (arena : Arena) (i : Nat) :
    (ps.grown d arena).table[i]? =
      if i = ps.size then some (ps.build d arena) else ps.table[i]? :=
  Array.getElem?_push

/-- What a change leaves alone in the one procedure that it changes, it leaves alone in all. -/
theorem map_getElem?_update {β : Type} {part : Procedure → β} {change : Procedure → Procedure}
    (hc : ∀ p, ps.get id = .ok p → part (change p) = part p) (i : Nat) :
    (ps.update id change).table[i]?.map part = ps.table[i]?.map part := by
  rw [getElem?_update]
  split
  · next hid =>
    subst hid
    rw [Option.map_map]
    rcases hp : ps.table[id.index]? with _ | p
    · rfl
    · exact congrArg some (hc p (get_eq_ok_iff.mpr hp))
  · rfl

/-- Parts are looked up like procedures. -/
theorem map_getElem?_eq_some_iff {β : Type} {part : Procedure → β} {b : β} :
    ps.table[id.index]?.map part = some b ↔ ∃ p, ps.get id = .ok p ∧ part p = b := by
  simp only [Option.map_eq_some_iff, get_eq_ok_iff]

/-- The parts of a new procedure show at its handle and nowhere else. -/
theorem map_getElem?_grown {β : Type} (part : Procedure → β) (d : ProcedureDef) (arena : Arena)
    (i : Nat) :
    (ps.grown d arena).table[i]?.map part =
      if i = ps.size then some (part (ps.build d arena)) else ps.table[i]?.map part := by
  rw [getElem?_grown, apply_ite (Option.map part), Option.map_some]

/-- So do those of a procedure that is changed. -/
theorem map_getElem?_update_of_get {β : Type} (part : Procedure → β) {p : Procedure}
    (hp : ps.get id = .ok p) (change : Procedure → Procedure) (i : Nat) :
    (ps.update id change).table[i]?.map part =
      if id.index = i then some (part (change p)) else ps.table[i]?.map part := by
  rw [getElem?_update]
  split
  · next hid =>
    rw [← hid, get_eq_ok_iff.mp hp]
    rfl
  · rfl

/-- **A definition** appends one procedure, with an empty arena, and registers it with its owner. -/
theorem define_eq_ok_iff :
    ((ps.define types d).run f).result = .ok (id, ps', types') ↔
      ∃ arena, Arena.create (.procedure ⟨ps.size⟩) ps.alignment = .ok arena ∧
        ((register types d ⟨ps.size⟩).run f).result = .ok types' ∧
        id = ⟨ps.size⟩ ∧ ps' = ps.grown d arena := by
  simp only [define, Step.result_bind, Step.result_note, Step.result_monadLift, Step.result_pure]
  rcases ((register types d ⟨ps.size⟩).run f).result with e | types₁
  · simp
  · rcases Arena.create (.procedure ⟨ps.size⟩) ps.alignment with e | arena
    · simp
    · simp only [ok_bind, Except.ok.injEq, Prod.mk.injEq, exists_eq_left']
      exact ⟨fun ⟨h₁, h₂, h₃⟩ => ⟨h₃, h₁.symm, h₂.symm⟩, fun ⟨h₁, h₂, h₃⟩ => ⟨h₂.symm, h₃.symm, h₁⟩⟩

/-- **A static method** is a procedure without owner, registered as a static method. -/
theorem defineStatic_eq_ok_iff {owner : StructId} :
    ((ps.defineStatic types owner d).run f).result = .ok (id, ps', types') ↔
      ∃ types₁, ((ps.define types { d with owner := none }).run f).result = .ok (id, ps', types₁) ∧
        ((types₁.registerStatic owner d.name id).run f).result = .ok types' := by
  simp only [defineStatic, Step.result_bind, Step.result_pure]
  rcases ((ps.define types { d with owner := none }).run f).result with e | ⟨id₁, ps₁, types₁⟩
  · simp
  · simp only [ok_bind]
    rcases h : ((types₁.registerStatic owner d.name id₁).run f).result with e | types₂
    · -- the procedure is made, but its owner is not known
      simp only [error_bind, reduceCtorEq, Except.ok.injEq, Prod.mk.injEq, false_iff, not_exists]
      rintro types₃ ⟨⟨rfl, rfl, rfl⟩, h'⟩
      rw [h] at h'
      cases h'
    · simp only [ok_bind, Except.ok.injEq, Prod.mk.injEq]
      constructor
      · rintro ⟨rfl, rfl, rfl⟩
        exact ⟨types₁, ⟨rfl, rfl, rfl⟩, h⟩
      · rintro ⟨types₃, ⟨rfl, rfl, rfl⟩, h'⟩
        exact ⟨rfl, rfl, Except.ok.inj (h.symm.trans h')⟩

/-- **A recorded call** is entered with its caller, or with the top level. -/
theorem addCall_eq_ok_iff {caller : Option ProcId} {callee : ProcId} :
    ((ps.addCall caller callee).run f).result = .ok ps' ↔
      (caller = none ∧ ps' = { ps with topLevel := ps.topLevel.insert callee }) ∨
      ∃ id p, caller = some id ∧ ps.get id = .ok p ∧
        ps' = ps.update id fun p => { p with calls := p.calls.insert callee } := by
  unfold addCall
  rw [Step.result_bind, Step.result_note, ok_bind]
  rcases caller with _ | id
  · simp [eq_comm]
  · simp only [Step.result_bind, Step.result_monadLift, reduceCtorEq, false_and, false_or,
      Option.some.injEq]
    rcases hp : ps.get id with e | p
    · simp only [error_bind, reduceCtorEq, false_iff, not_exists]
      rintro _ p ⟨rfl, h, -⟩
      rw [hp] at h
      cases h
    · simp only [ok_bind, Step.result_pure, Except.ok.injEq]
      constructor
      · intro h
        exact ⟨id, p, rfl, hp, h.symm⟩
      · rintro ⟨_, _, rfl, -, h⟩
        exact h.symm

theorem result_allocate {p : Procedure} (hp : ps.get id = .ok p) (name : String) (size : UInt64) :
    ((ps.allocate id name size).run f).result = (p.arena.advance size).map fun reserved =>
      (p.arena.nextRegion name,
        ps.update id fun p' => { p' with arena := p.arena.extended name reserved }) := by
  unfold allocate
  rw [Step.result_bind, Step.result_monadLift, hp, ok_bind, Step.result_bind,
    Arena.result_allocate]
  rcases p.arena.advance size with e | reserved <;> rfl

end Procedures

namespace Compilation

variable {ω : Type} {c c' : Compilation ω}

/-- **A new compilation** has one stream, which is empty, and no names; only its global arena can
be refused. -/
theorem create_eq_ok_iff {settings : Settings} {reporter : Reporter} :
    create settings reporter = .ok c ↔
      ∃ arena, Arena.create .global settings.alignment = .ok arena ∧ c = {
        position := ⟨.empty, ⟨0⟩, [], .unknown⟩
        streams := ⟨#[[]]⟩
        globals := ⟨∅, arena, ∅, ∅, ∅, settings.syscalls⟩
        types := .empty
        procs := .empty settings.alignment
        «variables» := ∅
        current := none
        owner := none
        flags := .none
        regions := .empty
        instructions := #[]
        strings := #[]
        used := none
        reporter
        bindings := #[]
        bindingSlots := 0
        routes := #[]
        deferred := #[] } := by
  unfold create Globals.create
  rcases Arena.create .global settings.alignment with e | arena
  · simp [Except.map]
  · simp only [Except.map, ok_bind, Except.ok.injEq, exists_eq_left']
    exact ok_eq_ok_iff

/-! ### Tokens -/

variable {t : Token} {queue : List Token}

theorem read_of_cons (hq : c.position.queue = t :: queue) :
    c.read = (some t, { c with position := { c.position with queue, location := t.location } }) := by
  unfold read
  rw [hq]

/-- **Reading past the queue** pulls from the stream; the location moves only if there is a token. -/
theorem read_of_nil (hq : c.position.queue = []) :
    c.read = ((c.streams.pending c.position.source).head?, { c with
      streams := (c.streams.next c.position.source).2
      position.location :=
        ((c.streams.pending c.position.source).head?.map Token.location).getD c.location }) := by
  unfold read pull
  rw [hq, ← Streams.next_fst]
  rcases c.streams.next c.position.source with ⟨_ | t, streams⟩ <;> rfl

theorem look_of_cons (hq : c.position.queue = t :: queue) : c.look = (some t, c) := by
  unfold look
  rw [hq]

/-- **Looking past the queue** pulls from the stream; the token looked at is queued. -/
theorem look_of_nil (hq : c.position.queue = []) :
    c.look = ((c.streams.pending c.position.source).head?, { c with
      streams := (c.streams.next c.position.source).2
      position.queue := (c.streams.pending c.position.source).head?.toList }) := by
  -- if the stream has no token either, the queue is put back as it was, empty
  obtain ⟨⟨blocks, source, queue, location⟩, streams, _⟩ := c
  obtain rfl : queue = [] := hq
  unfold look pull
  rw [← Streams.next_fst]
  rcases streams.next source with ⟨_ | t, streams'⟩ <;> rfl

/-- Reading moves to the token that is read. -/
theorem location_read (c : Compilation ω) :
    c.read.2.location = (c.read.1.map Token.location).getD c.location := by
  rcases hq : c.position.queue with _ | ⟨t, queue⟩
  · rw [read_of_nil hq]
    rfl
  · rw [read_of_cons hq]
    rfl

/-- Looking hands out the head of what is pending, as reading does. -/
theorem look_fst (c : Compilation ω) : c.look.1 = c.pending.head? := by
  unfold pending
  rcases hq : c.position.queue with _ | ⟨t, queue⟩
  · rw [look_of_nil hq]
    rfl
  · rw [look_of_cons hq]
    rfl

theorem location_look (c : Compilation ω) : c.look.2.location = c.location := by
  rcases hq : c.position.queue with _ | ⟨t, queue⟩
  · rw [look_of_nil hq]
    rfl
  · rw [look_of_cons hq]

/-! ### Positions and code -/

theorem result_record (c : Compilation ω) (e : Diagnostic) :
    ((c.record e).run f).result = .ok { c with reporter := c.reporter.recorded e } := by
  unfold record
  rw [Step.result_bind, Reporter.result_record]
  rfl

/-- **A report after which the process goes on** is a record. -/
theorem report_of_goesOn {e : Diagnostic}
    (h : ((c.report e).run f).result = .ok (.goesOn c')) :
    ((c.record e).run f).result = .ok c' := by
  unfold report at h
  obtain ⟨after, hr, ha⟩ := Step.exists_of_bind_pure h
  rcases after with r | r
  · obtain rfl := Reporter.report_of_goesOn hr
    rw [result_record]
    cases ha
    rfl
  · cases ha

theorem result_keepPosition (c : Compilation ω) :
    (c.keepPosition.run f).result = .ok c.position := by
  unfold keepPosition
  rw [Step.result_bind, Step.result_note]
  rfl

theorem result_returnTo (c : Compilation ω) (p : Position) :
    ((c.returnTo p).run f).result = .ok { c with position := p } := by
  unfold returnTo
  rw [Step.result_bind, Step.result_note]
  rfl

theorem result_detourTo (c : Compilation ω) (source : Source) :
    ((c.detourTo source).run f).result =
      .ok (c.position, { c with position := { c.position with source, queue := [] } }) := by
  unfold detourTo
  rw [Step.result_bind, result_keepPosition]
  rfl

theorem result_emit (c : Compilation ω) (op : ω) :
    ((c.emit op).run f).result =
      .ok (c.instructions.size, { c with instructions := c.instructions.push op }) := by
  unfold emit
  rw [Step.result_bind, Step.result_note]
  rfl

theorem result_enterBlock (c : Compilation ω) (kind : BlockKind) :
    ((c.enterBlock kind).run f).result =
      .ok (⟨kind, c.ip, none⟩,
        { c with position.blocks := ⟨⟨kind, c.ip, none⟩ :: c.position.blocks.blocks⟩ }) := by
  unfold enterBlock
  rw [Step.result_bind, Nesting.result_enter]
  rfl

/-- A block is closed, or its closing word is turned down and nothing is left to be changed. -/
theorem leaveBlockBy_eq_ok_iff {closing : String}
    {r : Except Diagnostic (Block × Compilation ω)} :
    ((c.leaveBlockBy closing).run f).result = .ok r ↔
      (∃ cause, c.position.blocks.refusal closing = some cause ∧
        r = .error (c.errorHere cause)) ∨
      ∃ top rest, c.position.blocks.refusal closing = none ∧
        c.position.blocks.blocks = top :: rest ∧
        r = .ok ({ top with stop := some c.ip }, { c with position.blocks := ⟨rest⟩ }) := by
  unfold leaveBlockBy
  rw [Step.result_bind, Nesting.result_leaveBy, ok_bind]
  rcases hr : c.position.blocks.refusal closing with _ | cause
  · rcases hb : c.position.blocks.blocks with _ | ⟨top, rest⟩
    · -- without an open block every closing word is turned down
      simp [Nesting.refusal, Nesting.innermost?, hb] at hr
    · simp only [reduceCtorEq, false_and, exists_false, true_and, false_or, List.cons.injEq]
      constructor
      · intro h
        exact ⟨top, rest, ⟨rfl, rfl⟩, (Except.ok.inj h).symm⟩
      · rintro ⟨_, _, ⟨rfl, rfl⟩, rfl⟩
        rfl
  · simp [eq_comm]

theorem result_analyse (c : Compilation ω) :
    (c.analyse.run f).result =
      (c.procs.closure c.procs.topLevel).map fun used => (used, { c with used := some used }) := by
  unfold analyse
  rw [Step.result_bind, Step.result_monadLift]
  rcases c.procs.closure c.procs.topLevel with e | used
  · rfl
  · simp [Except.map]

/-- **A compilation is handed over** exactly if its input is complete and every procedure that is
needed is known. The analysis is made anew. -/
theorem handOver_eq_ok_iff {program : Program ω} :
    (c.handOver.run f).result = .ok (.ok program) ↔
      c.complete = .ok () ∧ ∃ used, c.procs.closure c.procs.topLevel = .ok used ∧
        program = ⟨c.instructions, c.globals, c.types, c.procs, used, c.strings⟩ := by
  unfold handOver
  rcases c.complete with e | _
  · simp
  · simp only [Step.result_bind, true_and]
    rw [result_analyse]
    rcases c.procs.closure c.procs.topLevel with e | used
    · simp [Except.map]
    · simp only [Except.map, ok_bind, Except.ok.injEq, exists_eq_left']
      constructor
      · intro h
        exact (Except.ok.inj (Except.ok.inj h)).symm
      · rintro rfl
        rfl

/-! ### Declarations -/

/-- **What a declaration leaves behind that is turned down**: the current location has moved to the
name, where the error is said to be. -/
def refusedAt {α : Type} (c : Compilation ω) (t : Token) (cause : Cause) :
    Except Diagnostic α × Compilation ω :=
  (.error ⟨t.location, cause⟩, c.moveTo t.location)

theorem vetName_of_error {entity : Entity} {cause : Cause}
    (h : c.globals.vet t.text entity = .error cause) : c.vetName t entity = c.refusedAt t cause := by
  change ((c.moveTo t.location).locate (c.globals.vet t.text entity), c.moveTo t.location) = _
  rw [h]
  rfl

theorem vetName_of_ok {entity : Entity} (h : c.globals.vet t.text entity = .ok ()) :
    c.vetName t entity = (.ok (), c.moveTo t.location) := by
  change ((c.moveTo t.location).locate (c.globals.vet t.text entity), c.moveTo t.location) = _
  rw [h]
  rfl

theorem declareConstant_eq_ok_iff {value : Int} {r : Except Diagnostic Unit × Compilation ω} :
    ((c.declareConstant t value).run f).result = .ok r ↔
      (∃ cause, c.globals.vet t.text .constant = .error cause ∧ r = c.refusedAt t cause) ∨
      (c.globals.vet t.text .constant = .ok () ∧ r = (.ok (), { c.moveTo t.location with
        globals.constants := c.globals.constants.insert t.text value })) := by
  unfold declareConstant
  rw [Step.result_bind, show (c.moveTo t.location).globals = c.globals from rfl,
    Globals.result_addConstant]
  rcases c.globals.vet t.text .constant with cause | _
  · simp only [Except.error.injEq, exists_eq_left', reduceCtorEq, false_and, or_false]
    exact ok_eq_ok_iff
  · simp only [reduceCtorEq, false_and, exists_false, true_and, false_or]
    exact ok_eq_ok_iff

theorem declareEnum_eq_ok_iff {variants : List String}
    {r : Except Diagnostic Unit × Compilation ω} :
    ((c.declareEnum t variants).run f).result = .ok r ↔
      (∃ cause, c.globals.vet t.text .enum = .error cause ∧ r = c.refusedAt t cause) ∨
      (c.globals.vet t.text .enum = .ok () ∧ r = (.ok (), { c.moveTo t.location with
        globals.enums := c.globals.enums.insert t.text variants })) := by
  unfold declareEnum
  rw [Step.result_bind, show (c.moveTo t.location).globals = c.globals from rfl,
    Globals.result_addEnum]
  rcases c.globals.vet t.text .enum with cause | _
  · simp only [Except.error.injEq, exists_eq_left', reduceCtorEq, false_and, or_false]
    exact ok_eq_ok_iff
  · simp only [reduceCtorEq, false_and, exists_false, true_and, false_or]
    exact ok_eq_ok_iff

/-- **Global memory**: the region is taken from the global arena, which must have room. -/
theorem allocateGlobal_eq_ok_iff {name : String} {size : UInt64}
    {r : Except Diagnostic Region × Compilation ω} :
    ((c.allocateGlobal name size).run f).result = .ok r ↔
      ∃ reserved, c.globals.memory.advance size = .ok reserved ∧
        r = (.ok (c.globals.memory.nextRegion name),
          { c with globals.memory := c.globals.memory.extended name reserved }) := by
  unfold allocateGlobal
  rw [Step.result_bind, Globals.result_carve]
  rcases c.globals.memory.advance size with e | reserved
  · simp [Except.map]
  · simp only [Except.ok.injEq, exists_eq_left']
    exact ok_eq_ok_iff

/-- **Memory of a procedure**: a name that the procedure has given is turned down, else the region
is taken from the arena of the procedure. -/
theorem allocateIn_eq_ok_iff {id : ProcId} {name : String} {size : UInt64}
    {r : Except Diagnostic Region × Compilation ω} :
    ((c.allocateIn id name size).run f).result = .ok r ↔
      ∃ p, c.procs.get id = .ok p ∧
        ((p.arena.contains name = true ∧
          r = (.error (c.errorHere (.nameCollision .memory name)), c)) ∨
        (p.arena.contains name = false ∧ ∃ reserved, p.arena.advance size = .ok reserved ∧
          r = (.ok (p.arena.nextRegion name), { c with
            procs := c.procs.update id fun p' =>
              { p' with arena := p.arena.extended name reserved } }))) := by
  unfold allocateIn
  rw [Step.result_bind, Step.result_monadLift]
  rcases hp : c.procs.get id with e | p
  · simp
  · simp only [ok_bind, Except.ok.injEq, exists_eq_left']
    by_cases hc : p.arena.contains name = true
    · rw [if_pos hc]
      simp only [hc, true_and, reduceCtorEq, false_and, or_false]
      exact ok_eq_ok_iff
    · -- the name is free, and only the room in the arena can be lacking
      rw [if_neg hc, Step.result_bind, Procedures.result_allocate hp]
      simp only [Bool.not_eq_true] at hc
      simp only [hc, Bool.false_eq_true, false_and, true_and, false_or]
      rcases p.arena.advance size with e | reserved
      · simp [Except.map]
      · simp only [Except.ok.injEq, exists_eq_left']
        exact ok_eq_ok_iff

theorem declareMemory_eq_ok_iff {size : UInt64} {r : Except Diagnostic Region × Compilation ω} :
    ((c.declareMemory t size).run f).result = .ok r ↔
      (∃ cause, c.globals.vet t.text .memory = .error cause ∧ r = c.refusedAt t cause) ∨
      (c.globals.vet t.text .memory = .ok () ∧
        ((c.current = none ∧
          (((c.moveTo t.location).allocateGlobal t.text size).run f).result = .ok r) ∨
        ∃ id, c.current = some id ∧
          (((c.moveTo t.location).allocateIn id t.text size).run f).result = .ok r)) := by
  unfold declareMemory
  -- the location has moved before the name is vetted, but neither the names nor the procedure have
  rcases hv : c.globals.vet t.text .memory with cause | _
  · rw [vetName_of_error hv]
    simp only [Except.error.injEq, exists_eq_left', reduceCtorEq, false_and, or_false]
    exact ok_eq_ok_iff
  · rw [vetName_of_ok hv]
    simp only [reduceCtorEq, false_and, exists_false, true_and, false_or]
    rw [show (c.moveTo t.location).current = c.current from rfl]
    rcases c.current with _ | id
    · simp
    · simp

theorem declareStruct_eq_ok_iff {fields : List Field} {parent : Option StructId}
    {defaults : Table Nat Token} {r : Except Diagnostic StructId × Compilation ω} :
    ((c.declareStruct t fields parent defaults).run f).result = .ok r ↔
      (∃ cause, c.globals.vet t.text .struct = .error cause ∧ r = c.refusedAt t cause) ∨
      (c.globals.vet t.text .struct = .ok () ∧ ∃ id types,
        ((c.types.define ⟨t.text, fields, parent, defaults, c.flags.unpack⟩).run f).result =
          .ok (id, types) ∧
        r = (.ok id, { c.moveTo t.location with
          types, globals := c.globals.enterStruct t.text id })) := by
  unfold declareStruct
  rcases hv : c.globals.vet t.text .struct with cause | _
  · rw [vetName_of_error hv]
    simp only [Except.error.injEq, exists_eq_left', reduceCtorEq, false_and, or_false]
    exact ok_eq_ok_iff
  · rw [vetName_of_ok hv]
    simp only [reduceCtorEq, false_and, exists_false, true_and, false_or]
    rw [Step.result_bind]
    change ((((c.types.define ⟨t.text, fields, parent, defaults, c.flags.unpack⟩).run f).result >>=
      _) = _ ↔ _)
    rcases ((c.types.define ⟨t.text, fields, parent, defaults, c.flags.unpack⟩).run f).result
      with e | ⟨id, types⟩
    · simp
    · simp only [ok_bind, Except.ok.injEq, Prod.mk.injEq]
      constructor
      · intro h
        exact ⟨id, types, ⟨rfl, rfl⟩, (Except.ok.inj h).symm⟩
      · rintro ⟨_, _, ⟨rfl, rfl⟩, rfl⟩
        rfl

/-- **How a procedure is entered** whose name has been accepted: under its global name, as a method
of the struct that is being read, or as a static method of it. In each case it is appended to the
procedures, with an empty arena. -/
inductive Commits (f : Log.Filter) (c : Compilation ω) (d : ProcedureDef) : Compilation ω → Prop
  | plain {arena : Arena} {types : Hierarchy} (ho : c.owner = none)
      (ha : Arena.create (.procedure ⟨c.procs.size⟩) c.procs.alignment = .ok arena)
      (ht : ((Procedures.register c.types d ⟨c.procs.size⟩).run f).result = .ok types) :
      Commits f c d { c with
        procs := c.procs.grown d arena
        types
        globals := c.globals.enterProcedure d.name ⟨c.procs.size⟩ }
  | method {owner : StructId} {arena : Arena} {types : Hierarchy} (ho : c.owner = some owner)
      (hs : c.flags.static = false)
      (ha : Arena.create (.procedure ⟨c.procs.size⟩) c.procs.alignment = .ok arena)
      (ht : ((Procedures.register c.types d ⟨c.procs.size⟩).run f).result = .ok types) :
      Commits f c d { c with procs := c.procs.grown d arena, types }
  -- a static method takes no owner with it into the table of procedures
  | static {owner : StructId} {arena : Arena} {types : Hierarchy} (ho : c.owner = some owner)
      (hs : c.flags.static = true)
      (ha : Arena.create (.procedure ⟨c.procs.size⟩) c.procs.alignment = .ok arena)
      (ht : ((c.types.registerStatic owner d.name ⟨c.procs.size⟩).run f).result = .ok types) :
      Commits f c d { c with procs := c.procs.grown { d with owner := none } arena, types }

theorem commitProcedure_eq_ok_iff {d : ProcedureDef} {id : ProcId} :
    ((c.commitProcedure d).run f).result = .ok (id, c') ↔
      id = ⟨c.procs.size⟩ ∧ c.Commits f d c' := by
  constructor
  · intro h
    unfold commitProcedure at h
    split at h
    · next ho =>
      obtain ⟨⟨id', procs, types⟩, hd, hc⟩ := Step.exists_of_bind_pure h
      obtain ⟨arena, ha, ht, rfl, rfl⟩ := Procedures.define_eq_ok_iff.mp hd
      obtain ⟨rfl, rfl⟩ := Prod.mk.inj hc
      exact ⟨rfl, .plain ho ha ht⟩
    · next owner ho =>
      by_cases hs : c.flags.static = true
      · -- the procedure is made without its owner, and then registered with it
        simp only [hs, if_true] at h
        obtain ⟨⟨id', procs, types⟩, hd, hc⟩ := Step.exists_of_bind_pure h
        obtain ⟨types', hd', ht⟩ := Procedures.defineStatic_eq_ok_iff.mp hd
        obtain ⟨arena, ha, ht', rfl, rfl⟩ := Procedures.define_eq_ok_iff.mp hd'
        obtain rfl : c.types = types' := Except.ok.inj ht'
        obtain ⟨rfl, rfl⟩ := Prod.mk.inj hc
        exact ⟨rfl, .static ho hs ha ht⟩
      · simp only [hs] at h
        obtain ⟨⟨id', procs, types⟩, hd, hc⟩ := Step.exists_of_bind_pure h
        obtain ⟨arena, ha, ht, rfl, rfl⟩ := Procedures.define_eq_ok_iff.mp hd
        obtain ⟨rfl, rfl⟩ := Prod.mk.inj hc
        exact ⟨rfl, .method ho (Bool.eq_false_iff.mpr hs) ha ht⟩
  · rintro ⟨rfl, h⟩
    unfold commitProcedure
    cases h with
    | plain ho ha ht =>
      have hd := Procedures.define_eq_ok_iff.mpr ⟨_, ha, ht, rfl, rfl⟩
      split
      · simp only [Step.result_bind, hd, ok_bind, Step.result_pure]
      · next owner ho' => cases ho.symm.trans ho'
    | method ho hs ha ht =>
      have hd := Procedures.define_eq_ok_iff.mpr ⟨_, ha, ht, rfl, rfl⟩
      split
      · next ho' => cases ho.symm.trans ho'
      · simp only [hs, Bool.false_eq_true, if_false, Step.result_bind, hd, ok_bind,
          Step.result_pure]
    | static ho hs ha ht =>
      have hd' : ((c.procs.define c.types { d with owner := none }).run f).result = _ :=
        Procedures.define_eq_ok_iff.mpr ⟨_, ha, rfl, rfl, rfl⟩
      have hd := Procedures.defineStatic_eq_ok_iff.mpr ⟨_, hd', ht⟩
      split
      · next ho' => cases ho.symm.trans ho'
      · next owner' ho' =>
        obtain rfl := Option.some.inj (ho.symm.trans ho')
        simp only [hs, if_true, Step.result_bind, hd, ok_bind, Step.result_pure]

/-- **A procedure whose name has been accepted** is appended to the procedures, with an empty arena.
Only one without owner is entered under its global name. -/
theorem commitProcedure_of_ok {d : ProcedureDef} {id : ProcId}
    (h : ((c.commitProcedure d).run f).result = .ok (id, c')) :
    ∃ d' arena types,
      Arena.create (.procedure ⟨c.procs.size⟩) c.procs.alignment = .ok arena ∧
      c' = { c with
        procs := c.procs.grown d' arena
        types
        globals := if c.owner.isNone then c.globals.enterProcedure d.name id else c.globals } := by
  obtain ⟨rfl, hc⟩ := commitProcedure_eq_ok_iff.mp h
  cases hc with
  | plain ho ha ht =>
    rw [ho]
    exact ⟨d, _, _, ha, rfl⟩
  | method ho hs ha ht =>
    rw [ho]
    exact ⟨d, _, _, ha, rfl⟩
  | static ho hs ha ht =>
    rw [ho]
    exact ⟨{ d with owner := none }, _, _, ha, rfl⟩

theorem declareProcedure_eq_ok_iff {inputs outputs : List ValueType} {block : Block}
    {r : Except Diagnostic ProcId × Compilation ω} :
    ((c.declareProcedure t inputs outputs block).run f).result = .ok r ↔
      (∃ cause, c.vetProcedureName t.text = .error cause ∧ r = c.refusedAt t cause) ∨
      (c.vetProcedureName t.text = .ok () ∧ ∃ id c',
        (((c.moveTo t.location).commitProcedure
          (c.procedureDef t.text inputs outputs block)).run f).result = .ok (id, c') ∧
        r = (.ok id, c')) := by
  unfold declareProcedure
  dsimp only
  rw [show (c.moveTo t.location).vetProcedureName t.text = c.vetProcedureName t.text from rfl,
    show (c.moveTo t.location).procedureDef t.text inputs outputs block =
      c.procedureDef t.text inputs outputs block from rfl]
  rcases c.vetProcedureName t.text with cause | _
  · simp only [Except.error.injEq, exists_eq_left', reduceCtorEq, false_and, or_false]
    exact ok_eq_ok_iff
  · simp only [reduceCtorEq, false_and, exists_false, true_and, false_or, Step.result_bind]
    rcases (((c.moveTo t.location).commitProcedure
      (c.procedureDef t.text inputs outputs block)).run f).result with e | ⟨id, c'⟩
    · simp
    · simp only [ok_bind, Except.ok.injEq, Prod.mk.injEq]
      constructor
      · intro h
        exact ⟨id, c', ⟨rfl, rfl⟩, (Except.ok.inj h).symm⟩
      · rintro ⟨_, _, ⟨rfl, rfl⟩, rfl⟩
        rfl

theorem declareVariable_eq_ok_iff {b : Binding} :
    ((c.declareVariable b).run f).result = .ok c' ↔
      (c.current = none ∧ c' = { c with «variables» := c.variables.insert b.name b }) ∨
      ∃ id p, c.current = some id ∧ c.procs.get id = .ok p ∧
        c' = { c with procs := c.procs.update id fun p =>
          { p with «variables» := p.variables.insert b.name b } } := by
  unfold declareVariable
  rw [Step.result_bind, Step.result_note, ok_bind]
  rcases c.current with _ | id
  · simp only [reduceCtorEq, false_and, exists_false, true_and, or_false]
    exact ok_eq_ok_iff
  · simp only [reduceCtorEq, false_and, false_or, Option.some.injEq, Step.result_bind,
      Step.result_monadLift]
    rcases hp : c.procs.get id with e | p
    · simp only [error_bind, reduceCtorEq, false_iff, not_exists]
      rintro _ p ⟨rfl, h, -⟩
      rw [hp] at h
      cases h
    · simp only [ok_bind]
      constructor
      · intro h
        exact ⟨id, p, rfl, hp, (Except.ok.inj h).symm⟩
      · rintro ⟨_, _, rfl, -, rfl⟩
        rfl

/-! ### The current procedure -/

/-- **Entering a body** fails only where the name of the procedure is wanted for the log. -/
theorem enterBody_eq_ok_iff {id : ProcId} :
    ((c.enterBody id).run f).result = .ok c' ↔
      (f.admits .trace = true → ∃ p, c.procs.get id = .ok p) ∧
        c' = { c with current := some id } := by
  unfold enterBody
  rw [Step.result_bind, Step.result_record]
  by_cases ha : f.admits .trace = true
  · -- the record needs the name of the procedure, and with it the procedure
    rw [if_pos ha]
    simp only [ha, true_implies]
    rcases c.procs.get id with e | p
    · simp [Except.map]
    · simp only [Except.ok.injEq, exists_eq', true_and]
      exact ok_eq_ok_iff
  · rw [if_neg ha]
    simp only [ha, Bool.false_eq_true, false_implies, true_and]
    exact ok_eq_ok_iff

theorem useProcedure_eq_ok_iff {callee : ProcId} :
    ((c.useProcedure callee).run f).result = .ok c' ↔
      ∃ procs, ((c.procs.addCall c.current callee).run f).result = .ok procs ∧
        c' = { c with procs } := by
  unfold useProcedure
  rw [Step.result_bind]
  rcases ((c.procs.addCall c.current callee).run f).result with e | procs
  · simp
  · simp only [ok_bind, Except.ok.injEq, exists_eq_left']
    exact ok_eq_ok_iff

end Compilation

end StackFront
