import Mathlib.Data.Nat.Basic
import Mathlib.Order.Basic
import StackFront.Demo.Instruction
import StackFront.Proofs.Compilation.Handles
import StackFront.Proofs.Compilation.Memory

/-!
# Handles are dense and stable

Four series of things are numbered while a program is read: instructions, literals, structs and
procedures. The numbers of a series are given out one after the other, from zero on, and what has
been given a number keeps it. None of the tables behind the series is a part of the position that a
detour comes back to, so that what a detour has numbered stays when the detour is over; and a
definition that is refused takes no number.

Both halves are read off a history. The number that an event gives out is the `count` of those before
it that added to the same series. And what stands at a number in a later session is what was put there
in the event that gave it out; only an instruction can be written again, so that there the last write
counts.

* `Grows` is what one step makes of one series, and `Performs.grows` says that there is no more to it.
* `Reached.forall_event` proves what holds of an event from the step that made it on.
* `Stable` collects what is to be said of a session and its history, and `handles_are_stable` says
  that it holds of every session.
-/

namespace StackFront

variable {ω : Type}

/-! ### Series -/

/-- **What is numbered.** -/
inductive Series where
  | instructions | literals | structs | procedures
deriving DecidableEq

namespace Series

/-- How many numbers of a series have been given out. -/
def size (c : Compilation ω) : Series → Nat
  | .instructions => c.instructions.size
  | .literals => c.strings.size
  | .structs => c.types.size
  | .procedures => c.procs.size

/-- The reply that gives a number out. -/
def handle (k : Nat) : Series → Reply
  | .instructions | .literals => .index k
  | .structs => .struct ⟨k⟩
  | .procedures => .procedure ⟨k⟩

end Series

/-- The series that a command is to add to. -/
def Command.series? : Command ω → Option Series
  | .emit _ => some .instructions
  | .addString _ => some .literals
  | .declareStruct _ _ _ _ => some .structs
  | .declareProcedure _ _ _ _ => some .procedures
  | _ => none

/-- Whether a reply refuses what was asked for. -/
def Reply.refuses : Reply → Bool
  | .refused _ => true
  | _ => false

/-- **An event adds to a series** if its command is to do so, and was not refused. -/
def Event.adds (e : Event ω) (σ : Series) : Bool :=
  decide (e.command.series? = some σ) && !e.reply.refuses

/-- **How often a history has added to a series.** -/
def count (events : List (Event ω)) (σ : Series) : Nat := events.countP (·.adds σ)

theorem count_append (events : List (Event ω)) (e : Event ω) (σ : Series) :
    count (events ++ [e]) σ = count events σ + if e.adds σ then 1 else 0 := by
  unfold count
  rw [List.countP_append, List.countP_singleton]

/-- What an event writes at an instruction pointer. -/
def Event.written? (e : Event ω) (ip : Nat) : Option ω :=
  match e.command, e.reply with
  | .emit op, .index n => if n = ip then some op else none
  | .patch n op, .done => if n = ip then some op else none
  | _, _ => none

/-- **What a history has written last at an instruction pointer.** -/
def lastWritten (events : List (Event ω)) (ip : Nat) : Option ω :=
  events.reverse.findSome? fun e => e.written? ip

theorem lastWritten_append (events : List (Event ω)) (e : Event ω) (ip : Nat) :
    lastWritten (events ++ [e]) ip = (e.written? ip).or (lastWritten events ip) := by
  unfold lastWritten
  rw [List.reverse_append, List.findSome?_append]
  simp

/-! ### One step -/

/-- **What a step makes of a series**: it gives out the next number, or none. Where it is asked for a
number and gives out none, a definition has been refused. -/
inductive Grows (e : Event ω) (c' : Compilation ω) (σ : Series) : Prop
  | next (asked : e.command.series? = some σ)
      (reply_eq : e.reply = σ.handle (σ.size e.before.compilation))
      (size_eq : σ.size c' = σ.size e.before.compilation + 1)
  | same (vain : e.command.series? = some σ → e.command.defines = true ∧ ∃ d, e.reply = .refused d)
      (size_eq : σ.size c' = σ.size e.before.compilation)

theorem Event.adds_of_handle {e : Event ω} {σ : Series} {k : Nat}
    (hc : e.command.series? = some σ) (hr : e.reply = σ.handle k) : e.adds σ = true := by
  rw [Event.adds, decide_eq_true hc, hr]
  cases σ <;> rfl

theorem Event.adds_of_refused {e : Event ω} {σ : Series}
    (h : e.command.series? = some σ → ∃ d, e.reply = .refused d) : e.adds σ = false := by
  by_cases hc : e.command.series? = some σ
  · obtain ⟨d, hd⟩ := h hc
    rw [Event.adds, hd]
    exact Bool.and_false _
  · rw [Event.adds, decide_eq_false hc, Bool.false_and]

namespace Session

variable [Opcode ω] {f : Log.Filter} {settings : Settings} {s s' : Session ω}
  {command : Command ω} {reply : Reply} {events : List (Event ω)}

/-- **What a step makes of the instructions.** They are written by two commands, one of which can be
turned down. -/
inductive Writes (s : Session ω) : Command ω → Reply → Array ω → Prop
  | emitted {op : ω} :
      Writes s (.emit op) (.index s.compilation.instructions.size)
        (s.compilation.instructions.push op)
  | patched {n : Nat} {op : ω} (hn : n < s.compilation.instructions.size) :
      Writes s (.patch n op) .done (s.compilation.instructions.setIfInBounds n op)
  | unchanged {command : Command ω} {reply : Reply} (hc : ∀ op, command ≠ .emit op)
      (hw : ∀ ip, Event.written? ⟨s, command, reply⟩ ip = none) :
      Writes s command reply s.compilation.instructions

theorem Performs.writes (h : Performs f s command reply s') :
    Writes s command reply s'.compilation.instructions := by
  cases command with
  | emit op =>
    obtain ⟨r, hr, hs⟩ := Step.exists_of_bind_pure h.act
    rw [Compilation.result_emit] at hr
    cases hr
    cases hs
    exact .emitted
  | patch n op =>
    have hact := h.act
    rw [Session.act, Compilation.patch?] at hact
    by_cases hn : n < s.compilation.instructions.size
    · rw [if_pos hn] at hact
      cases hact
      exact .patched hn
    · -- nothing is written past the end
      rw [if_neg hn] at hact
      cases hact
      exact .unchanged (by simp) fun _ => rfl
  | _ =>
    have heq : s'.compilation.instructions = s.compilation.instructions :=
      h.keeps .instructions (by simp [Command.writes])
    rw [heq]
    exact .unchanged (by simp) fun _ => rfl

theorem Performs.grows_instructions (h : Performs f s command reply s') :
    Grows ⟨s, command, reply⟩ s'.compilation .instructions := by
  have hasked (hc : ∀ op, command ≠ .emit op) : command.series? ≠ some .instructions := by
    cases command with
    | emit op => exact absurd rfl (hc op)
    | _ => simp [Command.series?]
  have hwrites := h.writes
  have hsize : Series.instructions.size s'.compilation = s'.compilation.instructions.size := rfl
  generalize s'.compilation.instructions = instructions at hwrites hsize
  cases hwrites with
  | emitted => exact .next rfl rfl (hsize.trans (Array.size_push _))
  | patched => exact .same (by simp [Command.series?]) (hsize.trans Array.size_setIfInBounds)
  | unchanged hc => exact .same (fun h => absurd h (hasked hc)) hsize

theorem Performs.grows_literals (h : Performs f s command reply s') :
    Grows ⟨s, command, reply⟩ s'.compilation .literals := by
  cases command with
  | addString bytes =>
    cases h.act
    exact .next rfl rfl (Array.size_push bytes)
  | _ =>
    have heq : s'.compilation.strings = s.compilation.strings :=
      h.keeps .strings (by simp [Command.writes])
    exact .same (by simp [Command.series?]) (congrArg Array.size heq)

omit [Opcode ω] in
theorem defines_of_series? (h : command.series? = some .structs ∨ command.series? = some .procedures) :
    command.defines = true := by
  cases command <;> simp [Command.series?, Command.defines] at h ⊢

theorem Performs.grows_structs (h : Performs f s command reply s')
    (ht : s.compilation.types.Sound) : Grows ⟨s, command, reply⟩ s'.compilation .structs := by
  have hdefines := h.defines
  generalize s'.compilation = c' at hdefines ⊢
  cases hdefines with
  | nothing vain types_eq head?_eq procedures_eq structs_eq =>
    have hdefined (hc : command.series? = some .structs) : command.defines = true :=
      defines_of_series? (.inl hc)
    exact .same (fun hc => ⟨hdefined hc, vain (hdefined hc)⟩) (congrArg Hierarchy.size types_eq)
  | struct free inherited =>
    exact .next rfl rfl (Hierarchy.size_attach _ _)
  | procedure accepted commits =>
    refine .same (by simp [Command.series?]) ?_
    -- methods have been added to structs, but no struct to the others
    refine eq_of_forall_lt_iff fun k => ?_
    exact commits.knows_struct_iff ht (a := ⟨k⟩)

theorem Performs.grows_procedures (h : Performs f s command reply s') :
    Grows ⟨s, command, reply⟩ s'.compilation .procedures := by
  have hdefines := h.defines
  generalize s'.compilation = c' at hdefines ⊢
  cases hdefines with
  | nothing vain types_eq head?_eq procedures_eq structs_eq =>
    have hdefined (hc : command.series? = some .procedures) : command.defines = true :=
      defines_of_series? (.inr hc)
    refine .same (fun hc => ⟨hdefined hc, vain (hdefined hc)⟩) (eq_of_forall_lt_iff fun k => ?_)
    have hknows : ∀ p, c'.procs.Knows p ↔ s.compilation.procs.Knows p := by
      intro p
      rw [Procedures.knows_iff_head?, head?_eq, ← Procedures.knows_iff_head?]
    exact hknows ⟨k⟩
  | struct free inherited => exact .same (by simp [Command.series?]) rfl
  | procedure accepted commits =>
    refine .next rfl rfl ?_
    cases commits with
    | plain | method | static => exact Array.size_push _

/-- **A step gives out the next number of a series, or none of that series.** -/
theorem Performs.grows (h : Performs f s command reply s') (ht : s.compilation.types.Sound)
    (σ : Series) : Grows ⟨s, command, reply⟩ s'.compilation σ := by
  cases σ with
  | instructions => exact h.grows_instructions
  | literals => exact h.grows_literals
  | structs => exact h.grows_structs ht
  | procedures => exact h.grows_procedures

/-! ### What a step leaves in place -/

/-- A write shows at its pointer and nowhere else. -/
theorem Performs.instruction?_eq (h : Performs f s command reply s') (ip : Nat) :
    s'.compilation.instruction? ip =
      (Event.written? ⟨s, command, reply⟩ ip).or (s.compilation.instruction? ip) := by
  have hwrites := h.writes
  unfold Compilation.instruction?
  generalize s'.compilation.instructions = instructions at hwrites ⊢
  cases hwrites with
  | @emitted op =>
    rw [Array.getElem?_push]
    change _ = (if s.compilation.instructions.size = ip then some op else none).or _
    by_cases hip : ip = s.compilation.instructions.size
    · rw [if_pos hip, if_pos hip.symm]
      rfl
    · rw [if_neg hip, if_neg (Ne.symm hip)]
      rfl
  | @patched n op hn =>
    rw [Array.getElem?_setIfInBounds]
    change _ = (if n = ip then some op else none).or _
    by_cases hip : n = ip
    · rw [if_pos hip, if_pos hip, if_pos (hip ▸ hn)]
      rfl
    · rw [if_neg hip, if_neg hip]
      rfl
  | unchanged hc hw =>
    rw [hw]
    rfl

/-- A literal stays where it is. -/
theorem Performs.keeps_literal (h : Performs f s command reply s') {k : Nat} {bytes : List UInt8}
    (hk : s.compilation.strings[k]? = some bytes) : s'.compilation.strings[k]? = some bytes := by
  cases command with
  | addString added =>
    cases h.act
    change (s.compilation.strings.push added)[k]? = some bytes
    obtain ⟨hlt, -⟩ := Array.getElem?_eq_some_iff.mp hk
    rw [Array.getElem?_push_lt hlt, ← Array.getElem?_eq_getElem hlt]
    exact hk
  | _ =>
    have heq : s'.compilation.strings = s.compilation.strings :=
      h.keeps .strings (by simp [Command.writes])
    rw [heq]
    exact hk

end Session

/-- Entering a procedure writes no head of a struct. -/
theorem Compilation.Commits.types_head?_eq {f : Log.Filter} {c c' : Compilation ω}
    {d : ProcedureDef} (h : c.Commits f d c') (ht : c.types.Sound) (a : StructId) :
    c'.types.head? a = c.types.head? a := by
  have register {types : Hierarchy} {id : ProcId}
      (hr : ((Procedures.register c.types d id).run f).result = .ok types) :
      types.head? a = c.types.head? a := by
    unfold Procedures.register at hr
    split at hr
    · cases hr
      rfl
    · exact Hierarchy.head?_registerMethod ht hr a
  cases h with
  | plain ho ha hr => exact register hr
  | method ho hs ha hr => exact register hr
  | static ho hs ha hr =>
    obtain ⟨-, rfl⟩ := Hierarchy.registerStatic_eq_ok_iff.mp hr
    exact Hierarchy.head?_withStatic a

/-- The owner that a procedure is defined with where the reader is. A static method has none. -/
def Compilation.receiver (c : Compilation ω) : Option StructId :=
  if c.flags.static then none else c.owner

/-- **What a procedure is defined with** where the reader is: its receiver comes on top of the inputs
that are written. -/
def Compilation.signature (c : Compilation ω) (name : String) (inputs outputs : List ValueType)
    (block : Block) : ProcedureDef where
  name := name
  ip := block.start
  inputs := inputs ++ (c.receiver.map ValueType.struct).toList
  outputs := outputs
  block := block
  named := c.flags.named
  owner := c.receiver

/-- However a procedure is entered, it has the next handle and this signature. -/
theorem Compilation.Commits.procs_head?_eq {f : Log.Filter} {c c' : Compilation ω} {name : String}
    {inputs outputs : List ValueType} {block : Block}
    (h : c.Commits f (c.procedureDef name inputs outputs block) c') (id : ProcId) :
    c'.procs.head? id = if id = ⟨c.procs.size⟩
      then some (⟨c.procs.size⟩, c.signature name inputs outputs block) else c.procs.head? id := by
  -- a procedure is made of some definition, and the receiver of that is the one that is meant here
  have hgrown : ∃ d arena, c'.procs = c.procs.grown d arena ∧
      { d with inputs := Procedures.arguments d } = c.signature name inputs outputs block := by
    cases h with
    | plain ho ha hr =>
      refine ⟨_, _, rfl, ?_⟩
      rw [Compilation.signature, Compilation.receiver, ho, ite_self, ← ho]
      rfl
    | method ho hs ha hr =>
      refine ⟨_, _, rfl, ?_⟩
      rw [Compilation.signature, Compilation.receiver, hs]
      rfl
    | static ho hs ha hr =>
      refine ⟨_, _, rfl, ?_⟩
      rw [Compilation.signature, Compilation.receiver, hs]
      rfl
  obtain ⟨d, arena, hprocs, hd⟩ := hgrown
  rw [hprocs, Procedures.head?_grown, hd]

namespace Session

variable [Opcode ω] {f : Log.Filter} {settings : Settings} {s s' : Session ω}
  {command : Command ω} {reply : Reply} {events : List (Event ω)}

/-- What a struct was defined by stays. -/
theorem Performs.keeps_struct (h : Performs f s command reply s')
    (ht : s.compilation.types.Sound) {a : StructId} {d : StructId × StructDef}
    (ha : s.compilation.types.head? a = some d) : s'.compilation.types.head? a = some d := by
  have hdefines := h.defines
  generalize s'.compilation = c' at hdefines ⊢
  cases hdefines with
  | nothing vain types_eq head?_eq procedures_eq structs_eq =>
    rw [types_eq]
    exact ha
  | @struct t fields parent defaults i free inherited =>
    -- the handle that is given out was not known
    have hne : a ≠ ⟨s.compilation.types.size⟩ := by
      rintro rfl
      exact absurd (Hierarchy.knows_iff_head?.mpr ⟨d, ha⟩) (Nat.lt_irrefl _)
    exact (Hierarchy.head?_attach_build inherited a).trans ((if_neg hne).trans ha)
  | procedure accepted commits => exact (commits.types_head?_eq ht a).trans ha

/-- What a procedure was defined by stays. -/
theorem Performs.keeps_procedure (h : Performs f s command reply s') {p : ProcId}
    {d : ProcId × ProcedureDef} (hp : s.compilation.procs.head? p = some d) :
    s'.compilation.procs.head? p = some d := by
  have hdefines := h.defines
  generalize s'.compilation = c' at hdefines ⊢
  cases hdefines with
  | nothing vain types_eq head?_eq procedures_eq structs_eq => exact (head?_eq p).trans hp
  | struct free inherited => exact hp
  | procedure accepted commits =>
    -- the handle that is given out was not known
    have hne : p ≠ ⟨s.compilation.procs.size⟩ := by
      rintro rfl
      exact absurd (Procedures.knows_iff_head?.mpr ⟨d, hp⟩) (Nat.lt_irrefl _)
    exact (commits.procs_head?_eq p).trans ((if_neg hne).trans hp)

/-! ### Runs -/

/-- **What holds of an event from the step that made it on.** It has to hold after that step, and to
survive every later one. -/
theorem Reached.forall_event {Q : List (Event ω) → Event ω → Session ω → Prop}
    (h : Reached f settings events s)
    (new : ∀ before s command reply s', Reached f settings before s →
      Performs f s command reply s' → Q before ⟨s, command, reply⟩ s')
    (keep : ∀ before e events s command reply s', Reached f settings events s → Q before e s →
      Performs f s command reply s' → Q before e s') :
    ∀ before e, before ++ [e] <+: events → Q before e s := by
  refine h.induction (P := fun events s => ∀ before e, before ++ [e] <+: events → Q before e s) ?_ ?_
  · intro reporter c _ before e hb
    exact absurd (List.prefix_nil.mp hb) (by simp)
  · intro events s command reply s' hr ih hs before e hb
    rcases List.prefix_concat_iff.mp hb with heq | hb
    · -- the event is the last one
      obtain ⟨rfl, hlast⟩ := List.append_inj' heq rfl
      obtain ⟨rfl, -⟩ := List.cons.inj hlast
      exact new before s command reply s' hr hs
    · exact keep before e events s command reply s' hr (ih before e hb) hs

theorem size_eq_count (h : Reached f settings events s) (σ : Series) :
    σ.size s.compilation = count events σ := by
  refine h.induction (P := fun events s => σ.size s.compilation = count events σ) ?_ ?_
  · intro reporter c hc
    obtain ⟨arena, -, rfl⟩ := Compilation.create_eq_ok_iff.mp hc
    cases σ <;> rfl
  · intro events s command reply s' hr ih hs
    rw [count_append, ← ih]
    cases hs.grows (agrees_of_reached hr).sound σ with
    | next asked reply_eq size_eq => rw [size_eq, if_pos (Event.adds_of_handle asked reply_eq)]
    | same vain size_eq =>
      rw [size_eq, Event.adds_of_refused fun hc => (vain hc).2]
      rfl

theorem reply_eq_handle (h : Reached f settings events s) (σ : Series) :
    ∀ before e, before ++ [e] <+: events → e.command.series? = some σ →
      e.reply = σ.handle (count before σ) ∨
        (e.command.defines = true ∧ ∃ d, e.reply = .refused d) := by
  refine h.forall_event (Q := fun before e _ => e.command.series? = some σ →
    e.reply = σ.handle (count before σ) ∨
      (e.command.defines = true ∧ ∃ d, e.reply = .refused d)) ?_ ?_
  · intro before s command reply s' hr hs hc
    cases hs.grows (agrees_of_reached hr).sound σ with
    | next asked reply_eq size_eq =>
      left
      rw [reply_eq, size_eq_count hr]
    | same vain size_eq => exact .inr (vain hc)
  · intro before e events s command reply s' _ ih _
    exact ih

theorem instruction?_eq_lastWritten (h : Reached f settings events s) (ip : Nat) :
    s.compilation.instruction? ip = lastWritten events ip := by
  refine h.induction (P := fun events s =>
    s.compilation.instruction? ip = lastWritten events ip) ?_ ?_
  · intro reporter c hc
    obtain ⟨arena, -, rfl⟩ := Compilation.create_eq_ok_iff.mp hc
    rfl
  · intro events s command reply s' _ ih hs
    rw [hs.instruction?_eq, lastWritten_append, ih]

/-- A literal is found where it was added. -/
theorem literal_stands (h : Reached f settings events s) :
    ∀ before e, before ++ [e] <+: events → ∀ bytes, e.command = .addString bytes →
      s.compilation.strings[count before .literals]? = some bytes := by
  refine h.forall_event (Q := fun before e s => ∀ bytes, e.command = .addString bytes →
    s.compilation.strings[count before .literals]? = some bytes) ?_ ?_
  · rintro before s _ reply s' hr hs bytes rfl
    rw [← size_eq_count hr]
    cases hs.act
    exact Array.getElem?_push_size
  · intro before e events s command reply s' _ ih hs bytes hc
    exact hs.keeps_literal (ih bytes hc)

/-- A struct is found as it was defined. -/
theorem struct_stands (h : Reached f settings events s) :
    ∀ before e, before ++ [e] <+: events → ∀ t fields parent defaults id,
      e.command = .declareStruct t fields parent defaults → e.reply = .struct id →
      ∃ i, e.before.compilation.types.inherited parent = .ok i ∧
        s.compilation.types.head? id = some (id,
          ⟨t.text, fields ++ i.1, parent, defaults, e.before.compilation.flags.unpack⟩) := by
  refine h.forall_event (Q := fun before e s => ∀ t fields parent defaults id,
    e.command = .declareStruct t fields parent defaults → e.reply = .struct id →
    ∃ i, e.before.compilation.types.inherited parent = .ok i ∧
      s.compilation.types.head? id = some (id,
        ⟨t.text, fields ++ i.1, parent, defaults, e.before.compilation.flags.unpack⟩)) ?_ ?_
  · rintro before s _ _ s' hr hs t fields parent defaults id rfl rfl
    have hdefines := hs.defines
    generalize s'.compilation = c' at hdefines ⊢
    cases hdefines with
    | nothing vain types_eq head?_eq procedures_eq structs_eq =>
      obtain ⟨e, he⟩ := vain rfl
      cases he
    | @struct t fields parent defaults i free inherited =>
      exact ⟨i, inherited, (Hierarchy.head?_attach_build inherited _).trans (if_pos rfl)⟩
  · intro before e events s command reply s' hr ih hs t fields parent defaults id hc hreply
    obtain ⟨i, hi, hhead⟩ := ih t fields parent defaults id hc hreply
    exact ⟨i, hi, hs.keeps_struct (agrees_of_reached hr).sound hhead⟩

/-- A procedure is found as it was defined. -/
theorem procedure_stands (h : Reached f settings events s) :
    ∀ before e, before ++ [e] <+: events → ∀ t inputs outputs block id,
      e.command = .declareProcedure t inputs outputs block → e.reply = .procedure id →
      s.compilation.procs.head? id =
        some (id, e.before.compilation.signature t.text inputs outputs block) := by
  refine h.forall_event (Q := fun before e s => ∀ t inputs outputs block id,
    e.command = .declareProcedure t inputs outputs block → e.reply = .procedure id →
    s.compilation.procs.head? id =
      some (id, e.before.compilation.signature t.text inputs outputs block)) ?_ ?_
  · rintro before s _ _ s' hr hs t inputs outputs block id rfl rfl
    have hdefines := hs.defines
    generalize s'.compilation = c' at hdefines ⊢
    cases hdefines with
    | nothing vain types_eq head?_eq procedures_eq structs_eq =>
      obtain ⟨e, he⟩ := vain rfl
      cases he
    | procedure accepted commits => exact (commits.procs_head?_eq _).trans (if_pos rfl)
  · intro before e events s command reply s' hr ih hs t inputs outputs block id hc hreply
    exact hs.keeps_procedure (ih t inputs outputs block id hc hreply)

/-! ### Every session -/

/-- **What numbers there are, and what stands at them.** A session is looked at, and the history that
it has. An event is given by the history before it and the session that it met. -/
structure Stable (events : List (Event ω)) (s : Session ω) : Prop where
  /-- No number is given out but by an event that adds to the series. -/
  size_eq : ∀ σ : Series, σ.size s.compilation = count events σ
  /-- Numbers are given out in order, from zero on. Only a definition can be refused one. -/
  reply_eq : ∀ before e (σ : Series), before ++ [e] <+: events → e.command.series? = some σ →
    e.reply = σ.handle (count before σ) ∨ (e.command.defines = true ∧ ∃ d, e.reply = .refused d)
  /-- An instruction is the one that was emitted, or that was written in its place last. -/
  instruction_eq : ∀ ip, s.compilation.instruction? ip = lastWritten events ip
  literal_eq : ∀ before e bytes, before ++ [e] <+: events → e.command = .addString bytes →
    s.compilation.strings[count before .literals]? = some bytes
  /-- A struct has its own fields and then those of its parent. It is unpackable if the flags said so
  when it was defined. -/
  struct_eq : ∀ before e t fields parent defaults id, before ++ [e] <+: events →
    e.command = .declareStruct t fields parent defaults → e.reply = .struct id →
    ∃ inherited a, e.before.compilation.types.inherited parent = .ok inherited ∧
      s.compilation.types.get id = .ok a ∧ a.id = id ∧ a.name = t.text ∧
      a.fields = fields ++ inherited.1 ∧ a.parent = parent ∧ a.defaults = defaults ∧
      a.unpackable = e.before.compilation.flags.unpack
  /-- A procedure begins where its block does, and takes its receiver on top of its inputs. It is
  named if the flags said so when it was defined, and its arena is its own. -/
  procedure_eq : ∀ before e t inputs outputs block id, before ++ [e] <+: events →
    e.command = .declareProcedure t inputs outputs block → e.reply = .procedure id →
    ∃ p, s.compilation.procs.get id = .ok p ∧ p.id = id ∧ p.name = t.text ∧
      p.inputs = inputs ++ (e.before.compilation.receiver.map ValueType.struct).toList ∧
      p.outputs = outputs ∧ p.ip = block.start ∧ p.block = block ∧
      p.named = e.before.compilation.flags.named ∧ p.owner = e.before.compilation.receiver ∧
      p.arena.owner = .procedure id

/-- **Handles are dense and stable** over every history, whatever is refused in it and whatever is
read on a detour. -/
theorem handles_are_stable (h : Reached f settings events s) : Stable events s where
  size_eq := size_eq_count h
  reply_eq before e σ hb hc := reply_eq_handle h σ before e hb hc
  instruction_eq := instruction?_eq_lastWritten h
  literal_eq before e bytes hb hc := literal_stands h before e hb bytes hc
  struct_eq := by
    intro before e t fields parent defaults id hb hc hreply
    obtain ⟨i, hi, hhead⟩ := struct_stands h before e hb t fields parent defaults id hc hreply
    obtain ⟨a, ha, heq⟩ := Hierarchy.exists_of_head? hhead
    simp only [Struct.head, Prod.mk.injEq, StructDef.mk.injEq] at heq
    obtain ⟨hid, hname, hfields, hparent, hdefaults, hunpackable⟩ := heq
    exact ⟨i, a, hi, ha, hid, hname, hfields, hparent, hdefaults, hunpackable⟩
  procedure_eq := by
    intro before e t inputs outputs block id hb hc hreply
    have hhead := procedure_stands h before e hb t inputs outputs block id hc hreply
    obtain ⟨p, hp, heq⟩ := Procedures.exists_of_head? hhead
    simp only [Procedure.head, Compilation.signature, Prod.mk.injEq, ProcedureDef.mk.injEq] at heq
    obtain ⟨hid, hname, hip, hinputs, houtputs, hblock, hnamed, howner⟩ := heq
    have harena : p.arena.owner = .procedure id :=
      ((housed_of_reached h).belongs (some id) p.arena (Procedures.arena?_of_get hp)).owner_eq
    exact ⟨p, hp, hid, hname, hinputs, houtputs, hip, hblock, hnamed, howner, harena⟩

/-- On a detour a second point is refused, a pixel is defined as a point that can be unpacked, and an
instruction is written from before the detour. -/
def pixels : List (Command Demo.Instruction) :=
  [.emit .conditional, .declareStruct ⟨"Point", .unknown⟩ [⟨"x", .int⟩] none ∅, .keepPosition "main",
    .setFlags ⟨true, false, false, false⟩, .declareStruct ⟨"Point", .unknown⟩ [] none ∅,
    .declareStruct ⟨"Pixel", .unknown⟩ [⟨"shade", .int⟩] (some ⟨0⟩) ∅, .emit .stop,
    .patch 0 (.push 7), .setFlags .none, .returnTo "main"]

/-- The pixel is the second struct. It comes back from the detour as it was defined there. -/
theorem pixel_stays_point :
    ∃ c pixel, Compilation.create .default (.create .collect false) = .ok c ∧
      ((start c).play .off pixels).2.compilation.types.get ⟨1⟩ = .ok pixel ∧
      pixel.fields = [⟨"shade", .int⟩, ⟨"x", .int⟩] ∧ pixel.unpackable = true ∧
      ((start c).play .off pixels).2.compilation.types.size = 2 ∧
      ((start c).play .off pixels).2.compilation.instruction? 0 = some (.push 7) := by
  obtain ⟨c, hc⟩ : ∃ c : Compilation Demo.Instruction,
      Compilation.create .default (.create .collect false) = .ok c := ⟨_, rfl⟩
  have hr : Reached .off .default ((start c).play .off pixels).1 ((start c).play .off pixels).2 :=
    ⟨.create .collect false, c, hc, run_play .off (start c) pixels⟩
  have hstable := handles_are_stable hr
  cases hc
  obtain ⟨inherited, pixel, hinherited, hget, -, -, hfields, -, -, hunpackable⟩ :=
    hstable.struct_eq [_, _, _, _, _] _ _ _ _ _ ⟨1⟩ ⟨[_, _, _, _], rfl⟩ rfl rfl
  cases hinherited
  exact ⟨_, pixel, rfl, hget, hfields, hunpackable, (hstable.size_eq .structs).trans rfl,
    (hstable.instruction_eq 0).trans rfl⟩

end Session

end StackFront
