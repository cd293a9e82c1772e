import StackFront.Proofs.Compilation.Frame
import StackFront.Proofs.Procedure.Reachability
import StackFront.Proofs.Types.Dispatch

/-!
# What a step defines

Of all commands two define something that is referred to by a handle: a struct, or a procedure. What
is defined in this way stays. Later commands add to an entry of one of the two tables — a child, a
method, a region, a call — but what the entry was defined by, its *head*, is never written again, and
no handle is given to anything else.

* `Procedure.head` is the head of a procedure, next to `Struct.head` for structs; the `head?` lemmas say
  how the operations of the procedure table show in it.
* `Defines` is what one step makes of structs, procedures and the names they are found by, in three
  cases, and `Performs.defines` says that there are no others.
-/

namespace StackFront

/-! ### Heads of procedures -/

/-- **What a procedure was defined by**, with its handle. The owner is among the inputs. -/
def Procedure.head (p : Procedure) : ProcId × ProcedureDef :=
  (p.id, ⟨p.name, p.ip, p.inputs, p.outputs, p.block, p.named, p.owner⟩)

/-- A procedure without owner takes no receiver. -/
theorem Procedure.receiver?_of_none {p : Procedure} (h : p.owner = none) : p.receiver? = none := by
  rw [Procedure.receiver?, h]
  rfl

/-- The receiver of a method is what it takes on top. -/
theorem Procedure.receiver?_of_some {p : Procedure} {owner : StructId} (h : p.owner = some owner) :
    p.receiver? = p.inputs.getLast? := by
  rw [Procedure.receiver?, h]
  rfl

namespace Procedures

variable {ps : Procedures} {id : ProcId}

/-- The head of the procedure of a handle, if there is such a procedure. -/
def head? (ps : Procedures) (id : ProcId) : Option (ProcId × ProcedureDef) :=
  ps.table[id.index]?.map Procedure.head

theorem head?_of_get {p : Procedure} (h : ps.get id = .ok p) : ps.head? id = some p.head :=
  map_getElem?_eq_some_iff.mpr ⟨p, h, rfl⟩

theorem exists_of_head? {h : ProcId × ProcedureDef} (hh : ps.head? id = some h) :
    ∃ p, ps.get id = .ok p ∧ p.head = h :=
  map_getElem?_eq_some_iff.mp hh

theorem knows_iff_head? : ps.Knows id ↔ ∃ h, ps.head? id = some h := by
  constructor
  · intro h
    obtain ⟨p, hp⟩ := h.exists_get
    exact ⟨p.head, head?_of_get hp⟩
  · rintro ⟨h, hh⟩
    obtain ⟨p, hp, -⟩ := exists_of_head? hh
    obtain ⟨hlt, -⟩ := Array.getElem?_eq_some_iff.mp (get_eq_ok_iff.mp hp)
    exact hlt

/-- The handle that comes next has no head yet. -/
theorem head?_new (ps : Procedures) : ps.head? ⟨ps.size⟩ = none := by
  rw [Option.eq_none_iff_forall_ne_some]
  intro e he
  exact absurd (knows_iff_head?.mpr ⟨e, he⟩) (Nat.lt_irrefl ps.size)

theorem head?_grown (d : ProcedureDef) (arena : Arena) (id : ProcId) :
    (ps.grown d arena).head? id =
      if id = ⟨ps.size⟩ then some (⟨ps.size⟩, { d with inputs := arguments d }) else ps.head? id := by
  unfold head?
  rw [map_getElem?_grown]
  simp only [← ProcId.index_inj]
  rfl

end Procedures

/-! ### One step -/

variable {ω : Type}

/-- Whether a command is one of the two that define something under a handle. -/
def Command.defines : Command ω → Bool
  | .declareStruct _ _ _ _ | .declareProcedure _ _ _ _ => true
  | _ => false

namespace Session

/-- **What a step makes of structs and procedures**, and of the names they are found by. -/
inductive Defines (f : Log.Filter) (c : Compilation ω) :
    Command ω → Reply → Compilation ω → Prop
  /-- Nothing is defined, or in vain. -/
  | nothing {command : Command ω} {reply : Reply} {c' : Compilation ω}
      (vain : command.defines = true → ∃ e, reply = .refused e)
      (types_eq : c'.types = c.types)
      (head?_eq : ∀ id, c'.procs.head? id = c.procs.head? id)
      (procedures_eq : c'.globals.procedures = c.globals.procedures)
      (structs_eq : c'.globals.structs = c.globals.structs) :
      Defines f c command reply c'
  | struct {t : Token} {fields : List Field} {parent : Option StructId}
      {defaults : Table Nat Token} {i : List Field × Table String ProcId}
      (free : c.globals.holds t.text = false) (inherited : c.types.inherited parent = .ok i) :
      Defines f c (.declareStruct t fields parent defaults) (.struct ⟨c.types.size⟩)
        { c.moveTo t.location with
          types := c.types.attach
            (c.types.build ⟨t.text, fields, parent, defaults, c.flags.unpack⟩ i)
          globals := c.globals.enterStruct t.text ⟨c.types.size⟩ }
  | procedure {t : Token} {inputs outputs : List ValueType} {block : Block} {c' : Compilation ω}
      (accepted : c.vetProcedureName t.text = .ok ())
      (commits : (c.moveTo t.location).Commits f (c.procedureDef t.text inputs outputs block) c') :
      Defines f c (.declareProcedure t inputs outputs block) (.procedure ⟨c.procs.size⟩) c'

variable [Opcode ω] {f : Log.Filter} {s s' : Session ω} {command : Command ω} {reply : Reply}

/-- Only the definition of a procedure changes what heads there are. -/
theorem Performs.head?_eq (h : Performs f s command reply s')
    (hc : ∀ t inputs outputs block, command ≠ .declareProcedure t inputs outputs block)
    (id : ProcId) : s'.compilation.procs.head? id = s.compilation.procs.head? id :=
  -- memory, variables and calls are no part of a head
  h.rewrites.map_getElem?_eq hc (fun _ _ _ => rfl) (fun _ _ _ => rfl) (fun _ _ => rfl) id.index

/-- The names of structs and procedures are given by their definitions and by nothing else. -/
theorem Performs.tables_eq (h : Performs f s command reply s') (hc : command.defines = false) :
    s'.compilation.globals.procedures = s.compilation.globals.procedures ∧
      s'.compilation.globals.structs = s.compilation.globals.structs := by
  have hgrants := h.grants
  generalize s'.compilation.globals = globals at hgrants ⊢
  cases hgrants with
  | unchanged | constant | enum | memory => exact ⟨rfl, rfl⟩
  | struct | procedure => cases hc

/-- **A step defines a struct, or a procedure, or nothing.** -/
theorem Performs.defines (h : Performs f s command reply s') :
    Defines f s.compilation command reply s'.compilation := by
  cases command with
  | declareStruct t fields parent defaults =>
    obtain ⟨r, hr, hs⟩ := Step.exists_of_bind_pure h.act
    rcases Compilation.declareStruct_eq_ok_iff.mp hr with
      ⟨cause, -, rfl⟩ | ⟨hv, id, types, hd, rfl⟩
    · cases hs
      exact .nothing (fun _ => ⟨_, rfl⟩) rfl (fun _ => rfl) rfl rfl
    · obtain ⟨i, hi, rfl, rfl⟩ := Hierarchy.define_eq_ok_iff.mp hd
      cases hs
      exact .struct (Globals.vet_eq_ok_iff.mp hv).1 hi
  | declareProcedure t inputs outputs block =>
    obtain ⟨r, hr, hs⟩ := Step.exists_of_bind_pure h.act
    rcases Compilation.declareProcedure_eq_ok_iff.mp hr with
      ⟨cause, -, rfl⟩ | ⟨hv, id, c', hc, rfl⟩
    · cases hs
      exact .nothing (fun _ => ⟨_, rfl⟩) rfl (fun _ => rfl) rfl rfl
    · obtain ⟨rfl, hcommits⟩ := Compilation.commitProcedure_eq_ok_iff.mp hc
      cases hs
      exact .procedure hv hcommits
  | _ =>
    have htypes : s'.compilation.types = s.compilation.types :=
      h.keeps .types (by simp [Command.writes])
    obtain ⟨hprocedures, hstructs⟩ := h.tables_eq rfl
    exact .nothing (fun hd => by cases hd) htypes (h.head?_eq (by simp)) hprocedures hstructs

end Session

end StackFront
