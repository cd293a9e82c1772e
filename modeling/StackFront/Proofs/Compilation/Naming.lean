import StackFront.Demo.Instruction
import StackFront.Proofs.Compilation.Frame

/-!
# How names are given out

A name can be declared globally, as one of five kinds of entities that are kept in five tables; in
the arena of a procedure; or as a method, which is found through its struct. Whether a declaration is
turned down is decided by the tables as they are at that moment. Here it is shown to be a matter of
the history alone: of the declarations that were accepted before, whatever else has happened.

* `Declaration` is what a command declares, and `Declaration.verdict` what a history says of it.
* `Performs.names` says what one step does to the tables: it enters what it declares, if that is
  accepted, and nothing else.
* `Named` is the invariant: the tables are what the history has declared. Names given inside a
  procedure are not reserved, so that it makes no difference in which order the checks are made.
* `refusal_eq_verdict` is the result, together with the fact that no name stands for two things.
-/

namespace StackFront

/-! ### The tables -/

namespace Globals

variable {g : Globals} {name : String}

/-- **What a name stands for**, in each of the five tables. -/
def kinds (g : Globals) (name : String) : List Entity :=
  ([(Entity.procedure, g.procedures.contains name), (.memory, g.memory.contains name),
    (.constant, g.constants.contains name), (.struct, g.structs.contains name),
    (.enum, g.enums.contains name)].filter (·.2)).map (·.1)

theorem kinds_eq_nil_iff : g.kinds name = [] ↔ g.holds name = false := by
  simp [kinds, holds, and_assoc]

/-- **The tables with a name entered** under one kind, and otherwise as they were. -/
structure Enters (g : Globals) (entity : Entity) (name : String) (g' : Globals) : Prop where
  syscalls_eq : g'.syscalls = g.syscalls
  kinds_eq : ∀ n, g'.kinds n = g.kinds n ++ if name = n then [entity] else []

theorem enters_of_free (h : g.holds name = false) :
    (∀ id, g.Enters .procedure name (g.enterProcedure name id)) ∧
    (∀ reserved, g.Enters .memory name { g with memory := g.memory.extended name reserved }) ∧
    (∀ value, g.Enters .constant name
      { g with constants := g.constants.insert name value }) ∧
    (∀ id, g.Enters .struct name (g.enterStruct name id)) ∧
    (∀ variants, g.Enters .enum name { g with enums := g.enums.insert name variants }) := by
  have hnil : g.kinds name = [] := kinds_eq_nil_iff.mpr h
  simp only [holds, Bool.or_eq_false_iff] at h
  obtain ⟨⟨⟨⟨hp, hm⟩, hc⟩, hs⟩, he⟩ := h
  refine ⟨fun id => ⟨rfl, fun n => ?_⟩, fun r => ⟨rfl, fun n => ?_⟩, fun v => ⟨rfl, fun n => ?_⟩,
    fun id => ⟨rfl, fun n => ?_⟩, fun vs => ⟨rfl, fun n => ?_⟩⟩
  -- under the new name the lists are compared entry by entry, under any other nothing has changed
  all_goals
    by_cases hn : name = n
    · subst hn
      rw [hnil]
      simp [kinds, enterProcedure, enterStruct, Table.contains_insert, Arena.contains_extended,
        hp, hm, hc, hs, he]
    · simp only [kinds, enterProcedure, enterStruct, Table.contains_insert,
        Arena.contains_extended, hn, decide_false, Bool.false_or, if_false, List.append_nil]

end Globals

namespace Procedures

variable {ps : Procedures} {id : ProcId} {name : String}

/-- Whether a procedure has given a name to one of its regions. -/
def hasRegion (ps : Procedures) (id : ProcId) (name : String) : Bool :=
  ps.table[id.index]?.any fun p => p.arena.contains name

theorem hasRegion_of_get {p : Procedure} (hp : ps.get id = .ok p) (name : String) :
    ps.hasRegion id name = p.arena.contains name := by
  unfold hasRegion
  rw [get_eq_ok_iff.mp hp]
  rfl

/-- What is not a matter of memory can change without a trace in the regions. -/
theorem hasRegion_update {change : Procedure → Procedure}
    (hc : ∀ p, (change p).arena = p.arena) (id' : ProcId) (n : String) :
    (ps.update id change).hasRegion id' n = ps.hasRegion id' n := by
  unfold hasRegion
  rw [getElem?_update]
  split
  · rw [Option.any_map]
    simp only [hc]
  · rfl

theorem hasRegion_grown (d : ProcedureDef) {owner : ArenaOwner} {alignment : UInt64} {arena : Arena}
    (ha : Arena.create owner alignment = .ok arena) (id' : ProcId) (n : String) :
    (ps.grown d arena).hasRegion id' n = ps.hasRegion id' n := by
  unfold hasRegion grown
  rw [Array.getElem?_push]
  by_cases hid : id'.index = ps.table.size
  · -- the handle is the new one, and its arena has just been made
    rw [if_pos hid, hid, Array.getElem?_size]
    exact Arena.contains_create ha n
  · rw [if_neg hid]

/-- An allocation gives one name to a region of one procedure. -/
theorem hasRegion_allocate {p : Procedure} (hp : ps.get id = .ok p) (reserved : UInt64)
    (id' : ProcId) (n : String) :
    (ps.update id fun p' => { p' with arena := p.arena.extended name reserved }).hasRegion id' n =
        true ↔
      ps.hasRegion id' n = true ∨ (id = id' ∧ name = n) := by
  have hget := get_eq_ok_iff.mp hp
  by_cases hid : id = id'
  · -- in the arena of the procedure itself the new name joins the old ones
    subst hid
    rw [hasRegion, getElem?_update, if_pos rfl, hget, hasRegion_of_get hp]
    simp [Arena.contains_extended, or_comm]
  · have hne : id.index ≠ id'.index := fun h => hid (by cases id; cases id'; simp_all)
    rw [hasRegion, getElem?_update, if_neg hne]
    simp [hasRegion, hid]

end Procedures

/-! ### Declarations -/

/-- **Where a declared name counts.** -/
inductive Scope where
  | global
  | body (id : ProcId)
  /-- Methods are found through their struct. -/
  | method
deriving DecidableEq

/-- **A declaration**: what is declared, under which name, and where. -/
structure Declaration where
  scope : Scope
  entity : Entity
  name : String
  location : Location

variable {ω : Type}

/-- **What a command declares**, given the compilation that it meets. -/
def Command.declaration? (c : Compilation ω) : Command ω → Option Declaration
  | .declareConstant t _ => some ⟨.global, .constant, t.text, t.location⟩
  | .declareEnum t _ => some ⟨.global, .enum, t.text, t.location⟩
  | .declareStruct t _ _ _ => some ⟨.global, .struct, t.text, t.location⟩
  | .declareMemory t _ =>
    -- memory belongs to the procedure whose body is being read, if there is one
    some ⟨c.current.elim .global .body, .memory, t.text, t.location⟩
  | .declareProcedure t _ _ _ =>
    -- a procedure with an owner is a method of it, and has no global name
    match c.owner with
    | none => some ⟨.global, .procedure, t.text, t.location⟩
    | some _ => some ⟨.method, .method, t.text, t.location⟩
  | _ => none

/-- The error of a reply that refuses. -/
def Reply.refusal? : Reply → Option Diagnostic
  | .refused e => some e
  | _ => none

/-- The kind that an event has declared a name as, in a scope, if it has and was accepted. -/
def Event.accepted (e : Event ω) (scope : Scope) (name : String) : List Entity :=
  if e.reply.refusal?.isNone then
    ((e.command.declaration? e.before.compilation).filter fun d =>
      d.scope = scope ∧ d.name = name).toList.map (·.entity)
  else []

/-- **The kinds that a history has declared a name as** in a scope, as far as it was accepted. -/
def declared (events : List (Event ω)) (scope : Scope) (name : String) : List Entity :=
  events.flatMap fun e => e.accepted scope name

/-- **What a history says of a declaration**: a name that has been declared before is taken, globally
or in the same scope, unless it is that of a method; any other name must not be reserved. -/
def Declaration.verdict (d : Declaration) (syscalls : Nat) (events : List (Event ω)) :
    Option Cause :=
  -- a reserved name that is taken as well counts as taken
  if d.scope ≠ .method ∧
      (declared events .global d.name ≠ [] ∨ declared events d.scope d.name ≠ []) then
    some (.nameCollision d.entity d.name)
  else if Names.isReserved syscalls d.name then
    some (.reservedName d.entity d.name)
  else
    none

/-! ### One step -/

namespace Compilation

variable {c c' : Compilation ω} {d : Declaration} {cause : Cause}

/-- **Why a declaration is turned down** by the tables as they are, if it is. -/
def refusalOf (c : Compilation ω) (d : Declaration) : Option Cause :=
  if d.scope ≠ .method ∧ c.globals.holds d.name = true then
    some (.nameCollision d.entity d.name)
  else if c.globals.reserves d.name then
    some (.reservedName d.entity d.name)
  else
    -- the arena of a procedure is asked last, when the global checks are passed
    match d.scope with
    | .body id =>
      if c.procs.hasRegion id d.name then some (.nameCollision d.entity d.name) else none
    | _ => none

theorem refusalOf_of_error (hm : d.scope ≠ .method)
    (h : c.globals.vet d.name d.entity = .error cause) : c.refusalOf d = some cause := by
  unfold Globals.vet at h
  unfold refusalOf
  -- the two checks of the tables, in the order in which they are made
  by_cases hh : c.globals.holds d.name = true
  · rw [if_pos hh] at h
    rw [if_pos ⟨hm, hh⟩, Except.error.inj h]
  · rw [if_neg hh] at h
    rw [if_neg fun h => hh h.2]
    by_cases hr : c.globals.reserves d.name = true
    · rw [if_pos hr] at h
      rw [if_pos hr, Except.error.inj h]
    · rw [if_neg hr] at h
      cases h

theorem refusalOf_of_ok (h : c.globals.vet d.name d.entity = .ok ()) :
    c.refusalOf d =
      match d.scope with
      | .body id =>
        if c.procs.hasRegion id d.name then some (.nameCollision d.entity d.name) else none
      | _ => none := by
  obtain ⟨hh, hr⟩ := Globals.vet_eq_ok_iff.mp h
  unfold refusalOf
  simp only [hh, hr, Bool.false_eq_true, and_false, if_false]

/-- **The compilation after a declaration** that was accepted: its name is entered in its scope. -/
structure Enters (c : Compilation ω) (d : Declaration) (c' : Compilation ω) : Prop where
  syscalls_eq : c'.globals.syscalls = c.globals.syscalls
  kinds_eq : ∀ n, c'.globals.kinds n =
    c.globals.kinds n ++ if d.scope = .global ∧ d.name = n then [d.entity] else []
  hasRegion_iff : ∀ id n, c'.procs.hasRegion id n = true ↔
    c.procs.hasRegion id n = true ∨ (d.scope = .body id ∧ d.name = n)

variable {entity : Entity} {name : String} {location : Location} {id : ProcId}

theorem Enters.of_global (hg : c.globals.Enters entity name c'.globals)
    (hp : ∀ id n, c'.procs.hasRegion id n = c.procs.hasRegion id n) :
    c.Enters ⟨.global, entity, name, location⟩ c' := by
  refine ⟨hg.syscalls_eq, fun n => ?_, fun id n => ?_⟩
  · rw [hg.kinds_eq]
    simp
  · rw [hp]
    simp

theorem Enters.of_body (hg : c'.globals = c.globals)
    (hp : ∀ id' n, c'.procs.hasRegion id' n = true ↔
      c.procs.hasRegion id' n = true ∨ (id = id' ∧ name = n)) :
    c.Enters ⟨.body id, entity, name, location⟩ c' := by
  refine ⟨by rw [hg], fun n => ?_, fun id' n => ?_⟩
  · rw [hg]
    simp
  · rw [hp]
    simp

theorem Enters.of_method (hg : c'.globals = c.globals)
    (hp : ∀ id n, c'.procs.hasRegion id n = c.procs.hasRegion id n) :
    c.Enters ⟨.method, entity, name, location⟩ c' := by
  refine ⟨by rw [hg], fun n => ?_, fun id n => ?_⟩
  · rw [hg]
    simp
  · rw [hp]
    simp

/-- **How a declaration is settled**: it is turned down as the tables say, and nothing but the
location has moved; or its name is entered. -/
def Settles {α : Type} (c : Compilation ω) (d : Declaration)
    (r : Except Diagnostic α × Compilation ω) : Prop :=
  (∃ cause, c.refusalOf d = some cause ∧
    r = (.error ⟨d.location, cause⟩, c.moveTo d.location)) ∨
  (c.refusalOf d = none ∧ ∃ a c', r = (.ok a, c') ∧ c.Enters d c')

variable {f : Log.Filter} {t : Token}

/-- A global name that is free is entered in one of the tables. -/
theorem Settles.of_global {α : Type} {a : α} (hv : c.globals.vet name entity = .ok ())
    (hg : c.globals.Enters entity name c'.globals)
    (hp : ∀ id n, c'.procs.hasRegion id n = c.procs.hasRegion id n) :
    c.Settles ⟨.global, entity, name, location⟩ (.ok a, c') :=
  .inr ⟨refusalOf_of_ok hv, a, c', rfl, .of_global hg hp⟩

theorem settles_constant {value : Int} {r : Except Diagnostic Unit × Compilation ω}
    (h : ((c.declareConstant t value).run f).result = .ok r) :
    c.Settles ⟨.global, .constant, t.text, t.location⟩ r := by
  rcases declareConstant_eq_ok_iff.mp h with ⟨cause, hv, rfl⟩ | ⟨hv, rfl⟩
  · exact .inl ⟨cause, refusalOf_of_error (by simp) hv, rfl⟩
  · have hfree := (Globals.vet_eq_ok_iff.mp hv).1
    exact .of_global hv ((Globals.enters_of_free hfree).2.2.1 value) fun _ _ => rfl

theorem settles_enum {variants : List String} {r : Except Diagnostic Unit × Compilation ω}
    (h : ((c.declareEnum t variants).run f).result = .ok r) :
    c.Settles ⟨.global, .enum, t.text, t.location⟩ r := by
  rcases declareEnum_eq_ok_iff.mp h with ⟨cause, hv, rfl⟩ | ⟨hv, rfl⟩
  · exact .inl ⟨cause, refusalOf_of_error (by simp) hv, rfl⟩
  · have hfree := (Globals.vet_eq_ok_iff.mp hv).1
    exact .of_global hv ((Globals.enters_of_free hfree).2.2.2.2 variants) fun _ _ => rfl

theorem settles_struct {fields : List Field} {parent : Option StructId}
    {defaults : Table Nat Token} {r : Except Diagnostic StructId × Compilation ω}
    (h : ((c.declareStruct t fields parent defaults).run f).result = .ok r) :
    c.Settles ⟨.global, .struct, t.text, t.location⟩ r := by
  rcases declareStruct_eq_ok_iff.mp h with ⟨cause, hv, rfl⟩ | ⟨hv, id, types, -, rfl⟩
  · exact .inl ⟨cause, refusalOf_of_error (by simp) hv, rfl⟩
  · have hfree := (Globals.vet_eq_ok_iff.mp hv).1
    exact .of_global hv ((Globals.enters_of_free hfree).2.2.2.1 id) fun _ _ => rfl

/-- **Memory** is global outside every procedure. Inside one, the names that the procedure has given
are looked through as well, after the global ones. -/
theorem settles_memory {size : UInt64} {r : Except Diagnostic Region × Compilation ω}
    (h : ((c.declareMemory t size).run f).result = .ok r) :
    c.Settles ⟨c.current.elim .global .body, .memory, t.text, t.location⟩ r := by
  rcases declareMemory_eq_ok_iff.mp h with
    ⟨cause, hv, rfl⟩ | ⟨hv, ⟨hcur, hg⟩ | ⟨id, hcur, hl⟩⟩
  · -- the global checks come first, inside a procedure as well
    refine .inl ⟨cause, refusalOf_of_error ?_ hv, rfl⟩
    cases c.current <;> simp
  · rw [hcur]
    obtain ⟨reserved, -, rfl⟩ := allocateGlobal_eq_ok_iff.mp hg
    have hfree := (Globals.vet_eq_ok_iff.mp hv).1
    exact .of_global hv ((Globals.enters_of_free hfree).2.1 reserved) fun _ _ => rfl
  · -- the global checks are passed, so that only the arena can turn the name down
    rw [hcur]
    obtain ⟨p, hp, hcases⟩ := allocateIn_eq_ok_iff.mp hl
    have hrefusal := refusalOf_of_ok (d := ⟨.body id, .memory, t.text, t.location⟩) hv
    have hregion : c.procs.hasRegion id t.text = p.arena.contains t.text :=
      Procedures.hasRegion_of_get hp t.text
    rcases hcases with ⟨hc, rfl⟩ | ⟨hc, reserved, -, rfl⟩
    · exact .inl ⟨_, hrefusal.trans (if_pos (hregion.trans hc)), rfl⟩
    · refine .inr ⟨hrefusal.trans (if_neg (Bool.eq_false_iff.mp (hregion.trans hc))), _, _, rfl, ?_⟩
      exact .of_body rfl fun id' n => Procedures.hasRegion_allocate hp reserved id' n

/-- **A procedure** without owner is declared under its global name. -/
theorem settles_procedure {inputs outputs : List ValueType} {block : Block}
    {r : Except Diagnostic ProcId × Compilation ω} (ho : c.owner = none)
    (h : ((c.declareProcedure t inputs outputs block).run f).result = .ok r) :
    c.Settles ⟨.global, .procedure, t.text, t.location⟩ r := by
  have hvet : c.vetProcedureName t.text = c.globals.vet t.text .procedure := by
    unfold vetProcedureName
    rw [ho]
  rw [declareProcedure_eq_ok_iff, hvet] at h
  rcases h with ⟨cause, hv, rfl⟩ | ⟨hv, id, c', hc, rfl⟩
  · exact .inl ⟨cause, refusalOf_of_error (by simp) hv, rfl⟩
  · obtain ⟨d, arena, types, ha, rfl⟩ := commitProcedure_of_ok hc
    have hfree := (Globals.vet_eq_ok_iff.mp hv).1
    refine .of_global hv ?_ (Procedures.hasRegion_grown d ha)
    have hnone : (c.moveTo t.location).owner.isNone = true := Option.isNone_iff_eq_none.mpr ho
    rw [if_pos hnone]
    exact (Globals.enters_of_free hfree).1 id

/-- **A method** is entered in no table of names, and only a reserved word is turned down. -/
theorem settles_method {inputs outputs : List ValueType} {block : Block}
    {r : Except Diagnostic ProcId × Compilation ω} {owner : StructId} (ho : c.owner = some owner)
    (h : ((c.declareProcedure t inputs outputs block).run f).result = .ok r) :
    c.Settles ⟨.method, .method, t.text, t.location⟩ r := by
  -- no table is looked through, neither by the check nor by what it is to be compared with
  have hvet : c.vetProcedureName t.text =
      if c.globals.reserves t.text then .error (.reservedName .method t.text) else .ok () := by
    unfold vetProcedureName
    rw [ho]
  have hrefusal : c.refusalOf ⟨.method, .method, t.text, t.location⟩ =
      if c.globals.reserves t.text then some (.reservedName .method t.text) else none := by
    unfold refusalOf
    rw [if_neg (by simp)]
  rw [declareProcedure_eq_ok_iff, hvet] at h
  by_cases hr : c.globals.reserves t.text = true
  · rw [if_pos hr] at h hrefusal
    rcases h with ⟨cause, hv, rfl⟩ | ⟨hv, -⟩
    · cases hv
      exact .inl ⟨_, hrefusal, rfl⟩
    · cases hv
  · rw [if_neg hr] at h hrefusal
    rcases h with ⟨cause, hv, -⟩ | ⟨-, id, c', hc, rfl⟩
    · cases hv
    · obtain ⟨d, arena, types, ha, rfl⟩ := commitProcedure_of_ok hc
      -- the procedure is made, but the tables of names are the old ones
      refine .inr ⟨hrefusal, id, _, rfl, .of_method ?_ (Procedures.hasRegion_grown d ha)⟩
      have hsome : (c.moveTo t.location).owner.isNone = false :=
        (congrArg Option.isNone ho).trans rfl
      exact if_neg (Bool.eq_false_iff.mp hsome)

end Compilation

/-! ### Events -/

namespace Event

variable {e : Event ω} {d : Declaration} {scope : Scope} {name : String}

theorem accepted_of_no_declaration
    (hd : e.command.declaration? e.before.compilation = none) : e.accepted scope name = [] := by
  unfold accepted
  rw [hd]
  split <;> rfl

theorem accepted_of_refusal {err : Diagnostic} (hr : e.reply.refusal? = some err) :
    e.accepted scope name = [] := by
  unfold accepted
  rw [hr]
  rfl

theorem accepted_of_declaration (hd : e.command.declaration? e.before.compilation = some d)
    (hr : e.reply.refusal? = none) :
    e.accepted scope name = if d.scope = scope ∧ d.name = name then [d.entity] else [] := by
  unfold accepted
  rw [hd, hr, Option.isNone_none, if_pos rfl, Option.filter_some]
  by_cases hs : d.scope = scope ∧ d.name = name
  · rw [if_pos hs, if_pos (decide_eq_true hs)]
    rfl
  · rw [if_neg hs, if_neg (by simpa using hs)]
    rfl

/-- **What an event adds to the tables**: the names that it has declared, as far as they were
accepted. -/
structure Adds (e : Event ω) (c' : Compilation ω) : Prop where
  syscalls_eq : c'.globals.syscalls = e.before.compilation.globals.syscalls
  kinds_eq : ∀ n, c'.globals.kinds n =
    e.before.compilation.globals.kinds n ++ e.accepted .global n
  hasRegion_iff : ∀ id n, c'.procs.hasRegion id n = true ↔
    e.before.compilation.procs.hasRegion id n = true ∨ e.accepted (.body id) n ≠ []

/-- An event that has declared nothing, or in vain, leaves the tables alone. -/
theorem Adds.of_unchanged {c' : Compilation ω}
    (ha : ∀ scope n, e.accepted scope n = [])
    (hg : c'.globals = e.before.compilation.globals)
    (hp : ∀ id n, c'.procs.hasRegion id n = e.before.compilation.procs.hasRegion id n) :
    e.Adds c' := by
  refine ⟨by rw [hg], fun n => ?_, fun id n => ?_⟩
  · rw [hg, ha, List.append_nil]
  · rw [hp, ha]
    simp

end Event

namespace Session

variable [Opcode ω] {f : Log.Filter} {settings : Settings} {s s' : Session ω}
  {command : Command ω} {reply : Reply} {events : List (Event ω)} {d : Declaration}

omit [Opcode ω] in
/-- The reply to a declaration says how it was settled. -/
theorem declares_of_settles {α : Type} {accepted : α → Reply}
    (ha : ∀ a, (accepted a).refusal? = none) {r : Except Diagnostic α × Compilation ω}
    (h : s.compilation.Settles d r) (hr : s.answer (.ofExcept accepted) r = (reply, s')) :
    (∃ cause, s.compilation.refusalOf d = some cause ∧
      reply.refusal? = some ⟨d.location, cause⟩ ∧
      s'.compilation = s.compilation.moveTo d.location) ∨
    (s.compilation.refusalOf d = none ∧ reply.refusal? = none ∧
      s.compilation.Enters d s'.compilation) := by
  rcases h with ⟨cause, hc, rfl⟩ | ⟨hc, a, c', rfl, he⟩
  · cases hr
    exact .inl ⟨cause, hc, rfl, rfl⟩
  · cases hr
    exact .inr ⟨hc, ha a, he⟩

/-- **A step that declares something** is turned down as the tables say, or enters the name. -/
theorem Performs.declares (h : Performs f s command reply s')
    (hd : command.declaration? s.compilation = some d) :
    (∃ cause, s.compilation.refusalOf d = some cause ∧
      reply.refusal? = some ⟨d.location, cause⟩ ∧
      s'.compilation = s.compilation.moveTo d.location) ∨
    (s.compilation.refusalOf d = none ∧ reply.refusal? = none ∧
      s.compilation.Enters d s'.compilation) := by
  replace h := h.act
  cases command with
  | declareConstant t value =>
    cases hd
    obtain ⟨r, hr, hs⟩ := Step.exists_of_bind_pure h
    exact declares_of_settles (fun _ => rfl) (Compilation.settles_constant hr) hs
  | declareEnum t variants =>
    cases hd
    obtain ⟨r, hr, hs⟩ := Step.exists_of_bind_pure h
    exact declares_of_settles (fun _ => rfl) (Compilation.settles_enum hr) hs
  | declareStruct t fields parent defaults =>
    cases hd
    obtain ⟨r, hr, hs⟩ := Step.exists_of_bind_pure h
    exact declares_of_settles (fun _ => rfl) (Compilation.settles_struct hr) hs
  | declareMemory t size =>
    cases hd
    obtain ⟨r, hr, hs⟩ := Step.exists_of_bind_pure h
    exact declares_of_settles (fun _ => rfl) (Compilation.settles_memory hr) hs
  | declareProcedure t inputs outputs block =>
    obtain ⟨r, hr, hs⟩ := Step.exists_of_bind_pure h
    rcases ho : s.compilation.owner with _ | owner
    · simp only [Command.declaration?, ho] at hd
      cases hd
      exact declares_of_settles (fun _ => rfl) (Compilation.settles_procedure ho hr) hs
    · simp only [Command.declaration?, ho] at hd
      cases hd
      exact declares_of_settles (fun _ => rfl) (Compilation.settles_method ho hr) hs
  | _ => cases hd

/-- **A step that declares nothing** leaves the names alone, even where it writes the procedures. -/
theorem Performs.undeclared (h : Performs f s command reply s')
    (hd : command.declaration? s.compilation = none) :
    s'.compilation.globals = s.compilation.globals ∧
      ∀ id n, s'.compilation.procs.hasRegion id n = s.compilation.procs.hasRegion id n := by
  constructor
  · -- the commands that write the tables of names are those that declare something
    have hw : Part.globals ∉ command.writes := by
      cases command with
      | declareConstant | declareEnum | declareStruct | declareMemory => cases hd
      | declareProcedure =>
        simp only [Command.declaration?] at hd
        split at hd <;> cases hd
      | _ => simp [Command.writes]
    exact h.keeps .globals hw
  · -- the procedures are written by others, too, but not the names of their regions
    have hrewrites := h.rewrites
    generalize s'.compilation.procs = procs at hrewrites ⊢
    cases hrewrites with
    | unchanged => exact fun _ _ => rfl
    | defined =>
      simp only [Command.declaration?] at hd
      split at hd <;> cases hd
    | allocated => cases hd
    | bound => exact Procedures.hasRegion_update fun _ => rfl
    | used hc =>
      -- a recorded call shows in the set of the caller, or in that of the top level
      rcases Procedures.addCall_eq_ok_iff.mp hc with ⟨-, rfl⟩ | ⟨id, p, -, -, rfl⟩
      · exact fun _ _ => rfl
      · exact Procedures.hasRegion_update fun _ => rfl

/-- **One step adds to the tables what it declares**, if that is accepted, and nothing else. -/
theorem Performs.names (h : Performs f s command reply s') :
    (⟨s, command, reply⟩ : Event ω).Adds s'.compilation := by
  rcases hd : command.declaration? s.compilation with _ | d
  · obtain ⟨hg, hp⟩ := h.undeclared hd
    exact .of_unchanged (fun _ _ => Event.accepted_of_no_declaration hd) hg hp
  · rcases h.declares hd with ⟨cause, -, hr, hc⟩ | ⟨-, hr, he⟩
    · -- turned down: nothing but the location has moved
      refine .of_unchanged (fun _ _ => Event.accepted_of_refusal hr) ?_ fun id n => ?_
      · rw [hc]
        rfl
      · rw [hc]
        rfl
    · refine ⟨he.syscalls_eq, fun n => ?_, fun id n => ?_⟩
      · rw [he.kinds_eq, Event.accepted_of_declaration hd hr]
      · rw [he.hasRegion_iff, Event.accepted_of_declaration hd hr]
        by_cases hs : d.scope = .body id ∧ d.name = n
        · simp [hs]
        · simp [hs]

/-! ### Histories -/

omit [Opcode ω] in
theorem declared_append (events : List (Event ω)) (e : Event ω) (scope : Scope) (name : String) :
    declared (events ++ [e]) scope name = declared events scope name ++ e.accepted scope name := by
  simp [declared]

/-- **The invariant**: the tables are what the history has declared. -/
structure Named (syscalls : Nat) (events : List (Event ω)) (c : Compilation ω) : Prop where
  syscalls_eq : c.globals.syscalls = syscalls
  kinds_eq : ∀ n, c.globals.kinds n = declared events .global n
  /-- No name stands for two things. -/
  kinds_length : ∀ n, (c.globals.kinds n).length ≤ 1
  hasRegion_iff : ∀ id n, c.procs.hasRegion id n = true ↔ declared events (.body id) n ≠ []
  /-- No procedure has given a reserved name. -/
  unreserved : ∀ id n, declared events (.body id) n ≠ [] → Names.isReserved syscalls n = false

omit [Opcode ω] in
/-- Under the invariant a history says of a declaration what the tables do. -/
theorem Named.verdict_eq {syscalls : Nat} {c : Compilation ω} (h : Named syscalls events c)
    (d : Declaration) : d.verdict syscalls events = c.refusalOf d := by
  have hholds : c.globals.holds d.name = true ↔ declared events .global d.name ≠ [] := by
    rw [← h.kinds_eq, ne_eq, Globals.kinds_eq_nil_iff, Bool.not_eq_false]
  have hres : c.globals.reserves d.name = Names.isReserved syscalls d.name := by
    rw [Globals.reserves, h.syscalls_eq]
  unfold Declaration.verdict Compilation.refusalOf
  simp only [hres, hholds]
  -- outside procedures there is nothing but the tables, and a method collides with nothing
  rcases hs : d.scope with _ | id | _
  · simp
  · simp only [h.hasRegion_iff]
    by_cases hg : declared events .global d.name = []
    · by_cases hl : declared events (.body id) d.name = []
      · simp [hg, hl]
      · -- the check of the arena comes last, but a name given in a body is not reserved
        simp [hg, hl, h.unreserved id d.name hl]
    · simp [hg]
  · simp

omit [Opcode ω] in
theorem refusalOf_eq_none {c : Compilation ω} (h : c.refusalOf d = none) :
    c.globals.reserves d.name = false ∧ (d.scope ≠ .method → c.globals.holds d.name = false) := by
  unfold Compilation.refusalOf at h
  split at h
  · cases h
  · rename_i hholds
    split at h
    · cases h
    · rename_i hres
      refine ⟨Bool.eq_false_iff.mpr hres, fun hm => Bool.eq_false_iff.mpr fun hh => ?_⟩
      exact hholds ⟨hm, hh⟩

/-- What an event has declared was not turned down by the tables. -/
theorem Performs.of_accepted (h : Performs f s command reply s') {scope : Scope} {name : String}
    (ha : (⟨s, command, reply⟩ : Event ω).accepted scope name ≠ []) :
    ∃ d, d.scope = scope ∧ d.name = name ∧ s.compilation.refusalOf d = none ∧
      (⟨s, command, reply⟩ : Event ω).accepted scope name = [d.entity] := by
  rcases hd : command.declaration? s.compilation with _ | d
  · exact absurd (Event.accepted_of_no_declaration hd) ha
  · rcases h.declares hd with ⟨cause, -, hr, -⟩ | ⟨hc, hr, -⟩
    · exact absurd (Event.accepted_of_refusal hr) ha
    · have heq : (⟨s, command, reply⟩ : Event ω).accepted scope name = _ :=
        Event.accepted_of_declaration hd hr
      by_cases hs : d.scope = scope ∧ d.name = name
      · rw [if_pos hs] at heq
        exact ⟨d, hs.1, hs.2, hc, heq⟩
      · rw [if_neg hs] at heq
        exact absurd heq ha

theorem Named.step {syscalls : Nat} (h : Named syscalls events s.compilation)
    (hs : Performs f s command reply s') :
    Named syscalls (events ++ [⟨s, command, reply⟩]) s'.compilation := by
  have hnames := hs.names
  refine ⟨hnames.syscalls_eq.trans h.syscalls_eq, fun n => ?_, fun n => ?_, fun id n => ?_,
    fun id n => ?_⟩
  · -- tables and history grow by the same name
    rw [hnames.kinds_eq, h.kinds_eq, declared_append]
  · rw [hnames.kinds_eq]
    by_cases ha : (⟨s, command, reply⟩ : Event ω).accepted .global n = []
    · rw [ha, List.append_nil]
      exact h.kinds_length n
    · -- a name that is accepted now stood for nothing
      obtain ⟨d, hscope, rfl, hc, heq⟩ := hs.of_accepted ha
      have hfree := (refusalOf_eq_none hc).2 (by simp [hscope])
      rw [heq, show s.compilation.globals.kinds d.name = [] from
        Globals.kinds_eq_nil_iff.mpr hfree]
      exact Nat.le_refl 1
  · rw [hnames.hasRegion_iff, h.hasRegion_iff, declared_append, ne_eq, ne_eq, ne_eq,
      List.append_eq_nil_iff, Classical.not_and_iff_not_or_not]
  · intro hn
    rw [declared_append, ne_eq, List.append_eq_nil_iff, Classical.not_and_iff_not_or_not] at hn
    rcases hn with hn | hn
    · exact h.unreserved id n hn
    · -- a region that has just been named has passed the check for reserved words
      obtain ⟨d, -, rfl, hc, -⟩ := hs.of_accepted hn
      have hres := (refusalOf_eq_none hc).1
      rw [Globals.reserves, h.syscalls_eq] at hres
      exact hres

theorem named_of_reached (h : Reached f settings events s) :
    Named settings.syscalls events s.compilation := by
  refine h.induction (P := fun events s => Named settings.syscalls events s.compilation) ?_ ?_
  · -- a new compilation has no names, and its history is empty
    intro reporter c hc
    obtain ⟨arena, ha, rfl⟩ := Compilation.create_eq_ok_iff.mp hc
    have hnil : ∀ n, (⟨∅, arena, ∅, ∅, ∅, settings.syscalls⟩ : Globals).kinds n = [] := by
      intro n
      simp [Globals.kinds, Arena.contains_create ha]
    refine ⟨rfl, hnil, fun n => ?_, fun id n => ?_, fun id n hn => ?_⟩
    · exact Nat.le_trans (Nat.le_of_eq (congrArg List.length (hnil n))) (Nat.zero_le 1)
    · simp [start, Procedures.hasRegion, Procedures.empty, declared]
    · exact absurd rfl hn
  · intro events s command reply s' _ ih hs
    exact ih.step hs

/-- **Whether a name is given out is decided by the history.** Whatever has happened in a session, no
name stands for two things globally, and the next declaration is turned down, at the place of its
name, exactly as the declarations that were accepted before say. -/
theorem refusal_eq_verdict (h : Reached f settings events s) :
    (∀ name, (s.compilation.globals.kinds name).length ≤ 1) ∧
      ∀ command reply s' d, Performs f s command reply s' →
        command.declaration? s.compilation = some d →
        reply.refusal? =
          (d.verdict settings.syscalls events).map (Diagnostic.mk d.location) := by
  have hnamed := named_of_reached h
  refine ⟨hnamed.kinds_length, fun command reply s' d hs hd => ?_⟩
  -- the history says what the tables say, and the step has asked the tables
  rw [hnamed.verdict_eq]
  rcases hs.declares hd with ⟨cause, hc, hr, -⟩ | ⟨hc, hr, -⟩
  · rw [hc]
    exact hr
  · rw [hc]
    exact hr

/-- The procedure `main` gives the name `buffer` to memory of its own; after it has been left, the name
is given to an enum as well. -/
def buffered : List (Command Demo.Instruction) :=
  [.declareProcedure ⟨"main", .unknown⟩ [] [] ⟨.procedure, 0, none⟩, .enterBody ⟨0⟩,
    .declareMemory ⟨"buffer", .unknown⟩ 8, .leaveBody, .declareEnum ⟨"buffer", .unknown⟩ ["on"]]

/-- Outside `main` the name is taken by the enum. -/
theorem buffer_taken_by_enum :
    ∃ c, Compilation.create .default (.create .collect false) = .ok c ∧
      (((start c).play .off buffered).2.compilation.globals.kinds "buffer").length ≤ 1 ∧
      ∃ reply s', Performs .off ((start c).play .off buffered).2
          (.declareConstant ⟨"buffer", .unknown⟩ 1) reply s' ∧
        reply.refusal? = some ⟨.unknown, .nameCollision .constant "buffer"⟩ := by
  refine ⟨_, rfl, ?_⟩
  have hr : Reached .off .default _ _ :=
    ⟨.create .collect false, _, rfl, run_play .off (start _) buffered⟩
  obtain ⟨hkinds, hverdict⟩ := refusal_eq_verdict hr
  refine ⟨hkinds "buffer", _, _, rfl, ?_⟩
  exact (hverdict (.declareConstant ⟨"buffer", .unknown⟩ 1) _ _
    ⟨.global, .constant, "buffer", .unknown⟩ rfl rfl).trans (by decide)

end Session

end StackFront
