import StackFront.Demo.Instruction
import StackFront.Proofs.Compilation.Frame
import StackFront.Proofs.Procedure.Recording

/-!
# Which procedures a program uses

The program that a compilation is handed over as comes with the procedures that are needed. They are
computed from the references in the tables of the compilation, and these have gathered over the whole
history of a session: across bodies entered and left, across detours and the positions they come back
to, next to earlier analyses. Here the result is compared with the history itself.

* `Uses` reads the references off a history, and `Performs.refers_iff` says that one step adds to the
  tables the reference that it makes, if it makes one, and nothing else.
* `refers_iff_uses`: the tables hold exactly the references of the history.
* `used_iff_needed`: a procedure is handed over as used exactly if a chain of references leads to it
  from outside every procedure.
-/

namespace StackFront

/-! ### References in the history -/

variable {ω : Type}

/-- **A reference made in a history**: the callee was used while the reader was the current
procedure, or outside every procedure. -/
def Uses (events : List (Event ω)) (reader : Option ProcId) (callee : ProcId) : Prop :=
  ∃ e ∈ events, e.command = .useProcedure callee ∧ e.before.compilation.current = reader

/-- **What a history needs**: what a chain of references leads to from outside every procedure. -/
def Needed (events : List (Event ω)) (q : ProcId) : Prop :=
  ∃ p, Uses events none p ∧ Relation.ReflTransGen (fun p q => Uses events (some p) q) p q

theorem uses_append_iff {events : List (Event ω)} {e : Event ω} {reader : Option ProcId}
    {q : ProcId} :
    Uses (events ++ [e]) reader q ↔
      Uses events reader q ∨
        (e.command = .useProcedure q ∧ e.before.compilation.current = reader) := by
  unfold Uses
  constructor
  · rintro ⟨e', he', h⟩
    rcases List.mem_append.mp he' with he' | he'
    · exact .inl ⟨e', he', h⟩
    · obtain rfl := List.mem_singleton.mp he'
      exact .inr h
  · rintro (⟨e', he', h⟩ | h)
    · exact ⟨e', List.mem_append_left _ he', h⟩
    · exact ⟨e, List.mem_append_right _ (List.mem_singleton_self e), h⟩

namespace Session

variable [Opcode ω] {f : Log.Filter} {settings : Settings} {s s' : Session ω}
  {command : Command ω} {reply : Reply} {events : List (Event ω)} {reader : Option ProcId}
  {q : ProcId}

/-- **A step records the reference that it makes**, if it makes one. No step takes a reference away,
and a position that is come back to brings none with it. -/
theorem Performs.refers_iff (h : Performs f s command reply s') (reader : Option ProcId)
    (q : ProcId) :
    s'.compilation.procs.Refers reader q ↔
      s.compilation.procs.Refers reader q ∨
        (command = .useProcedure q ∧ s.compilation.current = reader) := by
  -- only `useProcedure` is about references; the other rewrites do not touch them
  have hrewrites := h.rewrites
  generalize s'.compilation.procs = procs at hrewrites ⊢
  cases hrewrites with
  | unchanged hne => simp [hne q]
  | defined d ha =>
    rw [Procedures.refers_grown]
    simp
  | allocated hc hp =>
    refine (Procedures.refers_update ?_).trans ?_
    · exact fun _ => rfl
    · simp
  | bound =>
    refine (Procedures.refers_update ?_).trans ?_
    · exact fun _ => rfl
    · simp
  | used hc =>
    rw [Command.useProcedure.injEq]
    exact Procedures.refers_addCall hc

/-- **The tables hold exactly the references of the history.** -/
theorem refers_iff_uses (h : Reached f settings events s) (reader : Option ProcId) (q : ProcId) :
    s.compilation.procs.Refers reader q ↔ Uses events reader q := by
  refine h.induction (P := fun events s =>
    s.compilation.procs.Refers reader q ↔ Uses events reader q) ?_ ?_
  · -- there are no procedures yet, and nothing has been used
    intro reporter c hc
    obtain ⟨arena, -, rfl⟩ := Compilation.create_eq_ok_iff.mp hc
    cases reader with
    | none => simp [start, Procedures.empty, Procedures.Refers, Uses]
    | some p => simp [start, Procedures.empty, Procedures.Refers, Procedures.Calls, Uses]
  · intro events s command reply s' _ ih hs
    rw [hs.refers_iff, ih, uses_append_iff]

/-- **Dead code is found exactly.** Whatever has happened in a session, when it is handed over a
procedure counts as used if and only if a chain of the references in its history leads to it from
outside every procedure. The rest is handed over as it stands. -/
theorem used_iff_needed (h : Reached f settings events s) {program : Program ω}
    (hp : (s.compilation.handOver.run f).result = .ok (.ok program)) :
    (∀ q, q ∈ program.used ↔ Needed events q) ∧
      program.instructions = s.compilation.instructions ∧
      program.globals = s.compilation.globals ∧
      program.types = s.compilation.types ∧
      program.procs = s.compilation.procs ∧
      program.strings = s.compilation.strings := by
  obtain ⟨-, used, hused, rfl⟩ := Compilation.handOver_eq_ok_iff.mp hp
  refine ⟨fun q => ?_, rfl, rfl, rfl, rfl, rfl⟩
  -- the closure follows the calls in the tables, and these are the references of the history
  have hcalls : s.compilation.procs.Calls = fun p q => Uses events (some p) q := by
    funext p q
    exact propext (refers_iff_uses h (some p) q)
  rw [Procedures.mem_closure_iff hused, Needed]
  constructor
  · rintro ⟨p, hp, hpq⟩
    rw [Procedures.Leads, hcalls] at hpq
    exact ⟨p, (refers_iff_uses h none p).mp hp, hpq⟩
  · rintro ⟨p, hp, hpq⟩
    refine ⟨p, (refers_iff_uses h none p).mpr hp, ?_⟩
    rw [Procedures.Leads, hcalls]
    exact hpq

/-- Three procedures, one of which is used by no other but itself. The second is used from the body
of the first during a detour, after which the session comes back to a position from before; an
analysis is made before anything is used at all. -/
def detoured : List (Command Demo.Instruction) :=
  [.declareProcedure ⟨"main", .unknown⟩ [] [] ⟨.procedure, 0, none⟩,
    .declareProcedure ⟨"helper", .unknown⟩ [] [] ⟨.procedure, 0, none⟩,
    .declareProcedure ⟨"idle", .unknown⟩ [] [] ⟨.procedure, 0, none⟩,
    .analyse, .enterBody ⟨2⟩, .useProcedure ⟨2⟩, .enterBody ⟨0⟩, .detourTo "body" ⟨0⟩,
    .useProcedure ⟨1⟩, .returnTo "body", .leaveBody, .useProcedure ⟨0⟩]

/-- What is used in a detour stays used, and what only uses itself is not. -/
theorem helper_needed_idle_not :
    ∃ c program, Compilation.create .default (.create .collect false) = .ok c ∧
      (((start c).play .off detoured).2.compilation.handOver.run .off).result =
        .ok (.ok program) ∧
      program.used = [⟨1⟩, ⟨0⟩] ∧
      Needed ((start c).play .off detoured).1 ⟨1⟩ ∧
      ¬ Needed ((start c).play .off detoured).1 ⟨2⟩ := by
  refine ⟨_, _, rfl, rfl, rfl, ?_⟩
  have hr : Reached .off .default _ _ :=
    ⟨.create .collect false, _, rfl, run_play .off (start _) detoured⟩
  obtain ⟨hused, -⟩ := used_iff_needed hr rfl
  exact ⟨(hused ⟨1⟩).mp (by decide), mt (hused ⟨2⟩).mpr (by decide)⟩

end Session

end StackFront
