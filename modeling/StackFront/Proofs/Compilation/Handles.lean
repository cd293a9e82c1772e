import StackFront.Proofs.Compilation.Integrity

/-!
# The handles that a history has given out

Structs and procedures are named to the compilation by handles, and the parser has these from the
replies to its own definitions. This module says what it means that it makes none up, and which of
them there are at any time.

* `Command.Handles` says which handles there are in a command, `GivesStruct` and `GivesProcedure`
  which ones a history has given out, and `Proper` that the former are among the latter.
* Each step makes known the one handle that is its reply, if it defines something
  (`Performs.knows_struct_iff`, `Performs.knows_procedure_iff`).
* So the handles that can be looked up are exactly those that were given out (`knows_iff_gives`).
-/

namespace StackFront

variable {ω : Type}

/-! ### Handles in a history -/

/-- **Every handle in a command** is one of those that are meant. -/
def Command.Handles (structs : StructId → Prop) (procedures : ProcId → Prop) : Command ω → Prop
  | .setOwner (some owner) => structs owner
  | .declareStruct _ _ (some parent) _ => structs parent
  | .enterBody id => procedures id
  | .useProcedure callee => procedures callee
  | _ => True

/-- A history has given out the handle of a struct, in reply to its definition. -/
def GivesStruct (events : List (Event ω)) (a : StructId) : Prop :=
  ∃ e ∈ events, e.command.defines = true ∧ e.reply = .struct a

/-- A history has given out the handle of a procedure, in reply to its definition. -/
def GivesProcedure (events : List (Event ω)) (p : ProcId) : Prop :=
  ∃ e ∈ events, e.command.defines = true ∧ e.reply = .procedure p

/-- What is asked of each event, given those before it, is asked of the last one and of the others. -/
theorem forall_split_append_iff {P : List (Event ω) → Event ω → Prop} {events : List (Event ω)}
    {last : Event ω} :
    (∀ before e after, events ++ [last] = before ++ e :: after → P before e) ↔
      (∀ before e after, events = before ++ e :: after → P before e) ∧ P events last := by
  constructor
  · intro h
    refine ⟨?_, h events last [] rfl⟩
    rintro before e after rfl
    exact h before e (after ++ [last]) (by simp)
  · rintro ⟨h, hlast⟩ before e after heq
    -- the event that is looked at is the last one, or it is one of those before
    rcases after.eq_nil_or_concat with rfl | ⟨after, e', rfl⟩
    · obtain ⟨rfl, he⟩ := List.append_inj' heq rfl
      obtain ⟨rfl, -⟩ := List.cons.inj he
      exact hlast
    · rw [List.concat_eq_append, ← List.cons_append, ← List.append_assoc] at heq
      obtain ⟨hbefore, -⟩ := List.append_inj' heq rfl
      exact h before e after hbefore

/-- **No handle is made up**: a handle in a command was given out before. -/
def Proper (events : List (Event ω)) : Prop :=
  ∀ before e after, events = before ++ e :: after →
    e.command.Handles (GivesStruct before) (GivesProcedure before)

theorem Proper.nil : Proper ([] : List (Event ω)) := by
  intro before e after h
  cases before <;> cases h

theorem proper_append_iff {events : List (Event ω)} {e : Event ω} :
    Proper (events ++ [e]) ↔
      Proper events ∧ e.command.Handles (GivesStruct events) (GivesProcedure events) :=
  forall_split_append_iff

/-- **Bodies are entered under handles that were given out.** Nothing is asked of the other handles in
a history. -/
def EntersDefined (events : List (Event ω)) : Prop :=
  ∀ before e after, events = before ++ e :: after →
    ∀ id, e.command = .enterBody id → GivesProcedure before id

theorem EntersDefined.nil : EntersDefined ([] : List (Event ω)) := by
  intro before e after h
  cases before <;> cases h

theorem entersDefined_append_iff {events : List (Event ω)} {e : Event ω} :
    EntersDefined (events ++ [e]) ↔
      EntersDefined events ∧ ∀ id, e.command = .enterBody id → GivesProcedure events id :=
  forall_split_append_iff

/-! ### What a definition makes known -/

namespace Hierarchy

/-- Registering a procedure with its owner, if it has one, changes no links. -/
theorem SameLinks.register {types types' : Hierarchy} {d : ProcedureDef} {id : ProcId}
    {f : Log.Filter} (ht : types.Sound)
    (h : ((Procedures.register types d id).run f).result = .ok types') :
    SameLinks types types' := by
  unfold Procedures.register at h
  split at h
  · obtain rfl := Except.ok.inj h
    exact .refl types
  · exact .registerMethod ht h

end Hierarchy

namespace Procedures

theorem knows_grown_iff {ps : Procedures} {d : ProcedureDef} {arena : Arena} {p : ProcId} :
    (ps.grown d arena).Knows p ↔ ps.Knows p ∨ p = ⟨ps.size⟩ := by
  rw [knows_iff_head?, head?_grown, knows_iff_head?]
  split
  · next hp => simp [hp]
  · next hp => simp [hp]

end Procedures

namespace Compilation

variable {f : Log.Filter} {c c' : Compilation ω} {d : ProcedureDef}

/-- A procedure that is entered has the next handle. -/
theorem Commits.knows_procedure_iff (h : c.Commits f d c') {p : ProcId} :
    c'.procs.Knows p ↔ c.procs.Knows p ∨ p = ⟨c.procs.size⟩ := by
  cases h with
  | plain | method | static => exact Procedures.knows_grown_iff

/-- It adds no struct to those there are. -/
theorem Commits.knows_struct_iff (h : c.Commits f d c') (ht : c.types.Sound) {a : StructId} :
    c'.types.Knows a ↔ c.types.Knows a := by
  cases h with
  | plain ho ha hr => exact (Hierarchy.SameLinks.register ht hr).knows_iff
  | method ho hs ha hr => exact (Hierarchy.SameLinks.register ht hr).knows_iff
  | static ho hs ha hr =>
    obtain ⟨-, rfl⟩ := Hierarchy.registerStatic_eq_ok_iff.mp hr
    show a.index < (c.types.update _ _).size ↔ a.index < c.types.size
    rw [Hierarchy.size_update]

end Compilation

namespace Session

variable [Opcode ω] {f : Log.Filter} {settings : Settings} {s s' : Session ω}
  {command : Command ω} {reply : Reply} {events : List (Event ω)}

/-- A step gives out the handle of the struct that it defines, if it defines one. -/
theorem Performs.knows_struct_iff (h : Performs f s command reply s')
    (ht : s.compilation.types.Sound) {a : StructId} :
    s'.compilation.types.Knows a ↔
      s.compilation.types.Knows a ∨ (command.defines = true ∧ reply = .struct a) := by
  have hdefines := h.defines
  generalize s'.compilation = c' at hdefines ⊢
  cases hdefines with
  | nothing vain types_eq head?_eq procedures_eq structs_eq =>
    -- a definition in vain is answered by an error, and an error is no handle
    rw [types_eq]
    refine (or_iff_left ?_).symm
    rintro ⟨hd, rfl⟩
    obtain ⟨e, he⟩ := vain hd
    cases he
  | @struct t fields parent defaults i free inherited =>
    have hid : (s.compilation.types.build ⟨t.text, fields, parent, defaults,
      s.compilation.flags.unpack⟩ i).id = ⟨s.compilation.types.size⟩ := rfl
    refine (Hierarchy.knows_attach_iff hid).trans (or_comm.trans (or_congr_right ?_))
    simp [Command.defines, hid, eq_comm]
  | procedure accepted commits =>
    -- methods have been added to structs, but no struct to the others
    refine (commits.knows_struct_iff ht).trans (or_iff_left ?_).symm
    rintro ⟨-, hreply⟩
    cases hreply

/-- It gives out the handle of the procedure that it defines. -/
theorem Performs.knows_procedure_iff (h : Performs f s command reply s') {p : ProcId} :
    s'.compilation.procs.Knows p ↔
      s.compilation.procs.Knows p ∨ (command.defines = true ∧ reply = .procedure p) := by
  have hdefines := h.defines
  generalize s'.compilation = c' at hdefines ⊢
  cases hdefines with
  | nothing vain types_eq head?_eq procedures_eq structs_eq =>
    rw [Procedures.knows_iff_head?, head?_eq, ← Procedures.knows_iff_head?]
    refine (or_iff_left ?_).symm
    rintro ⟨hd, rfl⟩
    obtain ⟨e, he⟩ := vain hd
    cases he
  | struct free inherited =>
    refine (or_iff_left ?_).symm
    rintro ⟨-, hreply⟩
    cases hreply
  | procedure accepted commits =>
    refine commits.knows_procedure_iff.trans (or_congr_right ?_)
    simp [Command.defines, eq_comm]
    rfl

/-! ### What a history makes known -/

omit [Opcode ω] in
theorem givesStruct_append_iff {e : Event ω} {a : StructId} :
    GivesStruct (events ++ [e]) a ↔
      GivesStruct events a ∨ (e.command.defines = true ∧ e.reply = .struct a) := by
  simp [GivesStruct, or_and_right, exists_or]

omit [Opcode ω] in
theorem givesProcedure_append_iff {e : Event ω} {p : ProcId} :
    GivesProcedure (events ++ [e]) p ↔
      GivesProcedure events p ∨ (e.command.defines = true ∧ e.reply = .procedure p) := by
  simp [GivesProcedure, or_and_right, exists_or]

/-- **The handles that can be looked up** are those that the history has given out. -/
theorem knows_iff_gives (h : Reached f settings events s) :
    s.compilation.types.Knows = GivesStruct events ∧
      s.compilation.procs.Knows = GivesProcedure events := by
  refine h.induction (P := fun events s => s.compilation.types.Knows = GivesStruct events ∧
    s.compilation.procs.Knows = GivesProcedure events) ?_ ?_
  · intro reporter c hc
    obtain ⟨arena, -, rfl⟩ := Compilation.create_eq_ok_iff.mp hc
    -- at the start both tables are empty, and so is the history
    constructor
    · funext a
      simp [start, Hierarchy.Knows, Hierarchy.size, Hierarchy.empty, GivesStruct]
    · funext p
      simp [start, Procedures.Knows, Procedures.size, Procedures.empty, GivesProcedure]
  · intro events s command reply s' hr ih hs
    obtain ⟨hstructs, hprocedures⟩ := ih
    constructor
    · funext a
      rw [propext (hs.knows_struct_iff (agrees_of_reached hr).sound), hstructs,
        propext givesStruct_append_iff]
    · funext p
      rw [propext hs.knows_procedure_iff, hprocedures, propext givesProcedure_append_iff]

end Session

end StackFront
