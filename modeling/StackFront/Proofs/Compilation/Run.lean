import StackFront.Compilation.Session
import StackFront.Proofs.Compilation.Operations

/-!
# Runs of sessions

A session is driven by commands, and a run is what comes of them: a list of events, each made of a
command, the session that it met and the reply that it got. Only commands after which the process
goes on make an event. A command that ends the process, or that ends in a fault, is not the last
event of a run but has no place in one.

Events are appended at the end, so that induction on a run looks at its last step and knows the run
before it.

* `performAll_iff_run` says that runs are what `Session.performAll` does.
* `run_play` gives the run of a list of commands as far as it goes, as a value, and `Run.play_eq` says
  that there is no other.
* `Reached.induction` proves what holds of every session with a history.
-/

namespace StackFront

/-- **What happened in one step**: the session that a command met, and the reply to it. -/
structure Event (ω : Type) where
  before : Session ω
  command : Command ω
  reply : Reply

namespace Session

variable {ω : Type} [Opcode ω] {f : Log.Filter} {s s' s₀ : Session ω} {command : Command ω}
  {reply : Reply} {events : List (Event ω)}

/-- **One step**: a command is carried out, and the process goes on. -/
def Performs (f : Log.Filter) (s : Session ω) (command : Command ω) (reply : Reply)
    (s' : Session ω) : Prop :=
  ((s.perform command).run f).result = .ok (.goesOn (reply, s'))

/-- **A run** from a session, with what happened in it. -/
inductive Run (f : Log.Filter) (s₀ : Session ω) : List (Event ω) → Session ω → Prop
  | start : Run f s₀ [] s₀
  | step {events : List (Event ω)} {s s' : Session ω} {command : Command ω} {reply : Reply}
      (run : Run f s₀ events s) (performs : Performs f s command reply s') :
      Run f s₀ (events ++ [⟨s, command, reply⟩]) s'

theorem Performs.unique {reply' : Reply} {s'' : Session ω} (h : Performs f s command reply s')
    (h' : Performs f s command reply' s'') : s'' = s' := by
  cases h.symm.trans h'
  rfl

/-- As long as the process goes on, the mode of the reporter makes no difference. -/
theorem Performs.act (h : Performs f s command reply s') :
    ((s.act command).run f).result = .ok (reply, s') := by
  have of_map {x : Step (Reply × Session ω)}
      (h : ((Aftermath.goesOn <$> x).run f).result = .ok (.goesOn (reply, s'))) :
      (x.run f).result = .ok (reply, s') := by
    rw [Step.result_map] at h
    rcases hx : (x.run f).result with e | p
    · rw [hx] at h
      cases h
    · rw [hx] at h
      exact congrArg _ (Aftermath.goesOn.inj (Except.ok.inj h))
  cases command with
  | report e =>
    -- the one command that looks at the mode
    obtain ⟨after, hr, ha⟩ := Step.exists_of_bind_pure h
    rcases after with c | c
    · cases ha
      rw [Session.act, Step.result_bind, Compilation.report_of_goesOn hr]
      rfl
    · cases ha
  | _ => exact of_map h

/-- What is carried out is performed, unless it is a report, which may end the process. -/
theorem performs_of_act (hc : ∀ e, command ≠ .report e)
    (h : ((s.act command).run f).result = .ok (reply, s')) : Performs f s command reply s' := by
  have of_act (hp : s.perform command = Aftermath.goesOn <$> s.act command) :
      Performs f s command reply s' := by
    unfold Performs
    rw [hp, Step.result_map, h]
    rfl
  cases command with
  | report e => exact absurd rfl (hc e)
  | _ => exact of_act rfl

/-! ### Runs and lists of commands -/

theorem run_nil_iff : Run f s₀ [] s' ↔ s' = s₀ := by
  constructor
  · -- a run with a step has an event at its end
    intro h
    generalize hl : [] = l at h
    cases h with
    | start => rfl
    | step => exact absurd hl.symm (List.append_ne_nil_of_right_ne_nil _ (List.cons_ne_nil _ _))
  · rintro rfl
    exact .start

theorem Run.cons {e : Event ω} (he : Performs f e.before e.command e.reply s)
    (h : Run f s events s') : Run f e.before (e :: events) s' := by
  induction h with
  | start => exact .step .start he
  | step _ hs ih => exact .step ih hs

/-- A run goes on where another one has come to. -/
theorem Run.append {later : List (Event ω)} (h : Run f s₀ events s) (h' : Run f s later s') :
    Run f s₀ (events ++ later) s' := by
  induction h' with
  | start => rwa [List.append_nil]
  | step _ hs ih =>
    rw [← List.append_assoc]
    exact .step ih hs

theorem run_cons_iff {e : Event ω} :
    Run f s₀ (e :: events) s' ↔
      e.before = s₀ ∧ ∃ s, Performs f s₀ e.command e.reply s ∧ Run f s events s' := by
  constructor
  · -- by induction on the run, whose steps are at the other end of the list
    intro h
    generalize hl : e :: events = l at h
    induction h generalizing events with
    | start => cases hl
    | @step init s₁ s₂ command reply run hs ih =>
      rcases init with _ | ⟨e', init⟩
      · -- the run has one step only
        obtain ⟨rfl, rfl⟩ := List.cons.inj hl
        obtain rfl := run_nil_iff.mp run
        exact ⟨rfl, s₂, hs, .start⟩
      · obtain ⟨rfl, rfl⟩ := List.cons.inj hl
        obtain ⟨hb, s, he, hr⟩ := ih rfl
        exact ⟨hb, s, he, .step hr hs⟩
  · rintro ⟨rfl, s, he, hr⟩
    exact .cons he hr

/-- **Runs are what carrying commands out one after the other does.** -/
theorem performAll_iff_run {commands : List (Command ω)} {replies : List Reply} :
    ((s.performAll commands).run f).result = .ok (.goesOn (replies, s')) ↔
      ∃ events, Run f s events s' ∧ events.map (·.command) = commands ∧
        events.map (·.reply) = replies := by
  induction commands generalizing s replies with
  | nil =>
    rw [performAll]
    constructor
    · intro h
      cases h
      exact ⟨[], .start, rfl, rfl⟩
    · rintro ⟨events, hr, hc, rfl⟩
      obtain rfl := List.map_eq_nil_iff.mp hc
      obtain rfl := run_nil_iff.mp hr
      rfl
  | cons command rest ih =>
    rw [performAll, Step.result_bind]
    constructor
    · intro h
      rcases hp : ((s.perform command).run f).result with e | ⟨reply, s₁⟩ | ⟨reply, s₁⟩
      · rw [hp] at h
        cases h
      · -- the process goes on, and the rest has a run by induction
        rw [hp, ok_bind] at h
        obtain ⟨after, hrest, ha⟩ := Step.exists_of_bind_pure h
        rcases after with ⟨replies', s₂⟩ | ⟨replies', s₂⟩
        · cases ha
          obtain ⟨events, hr, rfl, rfl⟩ := ih.mp hrest
          exact ⟨⟨s, command, reply⟩ :: events, .cons (e := ⟨s, command, reply⟩) hp hr, rfl, rfl⟩
        · cases ha
      · -- the process has ended, and nothing goes on
        rw [hp] at h
        cases h
    · rintro ⟨events, hr, hc, rfl⟩
      rcases events with _ | ⟨e, events⟩
      · cases hc
      · obtain ⟨rfl, s₁, he, hr⟩ := run_cons_iff.mp hr
        obtain ⟨rfl, rfl⟩ := List.cons.inj hc
        rw [he, ok_bind, Step.result_bind, ih.mpr ⟨events, hr, rfl, rfl⟩]
        rfl

/-- **Carries out commands as long as the process goes on**, and keeps what happened. -/
def play (f : Log.Filter) (s : Session ω) : List (Command ω) → List (Event ω) × Session ω
  | [] => ([], s)
  | command :: rest =>
    match ((s.perform command).run f).result with
    | .ok (.goesOn (reply, s')) =>
      let later := s'.play f rest
      (⟨s, command, reply⟩ :: later.1, later.2)
    | _ => ([], s)

/-- Whatever the commands, as far as they are carried out they make a run. -/
theorem run_play (f : Log.Filter) (s : Session ω) (commands : List (Command ω)) :
    Run f s (s.play f commands).1 (s.play f commands).2 := by
  induction commands generalizing s with
  | nil => exact .start
  | cons command rest ih =>
    rcases hp : ((s.perform command).run f).result with e | ⟨reply, s₁⟩ | ⟨reply, s₁⟩
    · simp only [play, hp]
      exact .start
    · simp only [play, hp]
      exact .cons (e := ⟨s, command, reply⟩) hp (ih s₁)
    · simp only [play, hp]
      exact .start

/-- **There is no other run** of the same commands. -/
theorem Run.play_eq (h : Run f s events s') :
    s.play f (events.map (·.command)) = (events, s') := by
  induction events generalizing s with
  | nil =>
    obtain rfl := run_nil_iff.mp h
    rfl
  | cons e events ih =>
    obtain ⟨rfl, s₁, he, hr⟩ := run_cons_iff.mp h
    have hplay : e.before.play f ((e :: events).map (·.command)) =
        (⟨e.before, e.command, e.reply⟩ :: (s₁.play f (events.map (·.command))).1,
          (s₁.play f (events.map (·.command))).2) := by
      rw [List.map_cons, play, he]
    rw [hplay, ih hr]

/-! ### Histories -/

/-- **The history of a session**: a run that began with a new compilation of these settings. -/
def Reached (f : Log.Filter) (settings : Settings) (events : List (Event ω)) (s : Session ω) :
    Prop :=
  ∃ reporter c, Compilation.create settings reporter = .ok c ∧ Run f (.start c) events s

theorem Reached.append {settings : Settings} {later : List (Event ω)}
    (h : Reached f settings events s) (h' : Run f s later s') :
    Reached f settings (events ++ later) s' := by
  obtain ⟨reporter, c, hc, hr⟩ := h
  exact ⟨reporter, c, hc, hr.append h'⟩

/-- **Induction along a history**, from its beginning. -/
theorem Reached.induction {settings : Settings} {P : List (Event ω) → Session ω → Prop}
    (h : Reached f settings events s)
    (start : ∀ reporter c, Compilation.create settings reporter = .ok c → P [] (.start c))
    (step : ∀ events s command reply s', Reached f settings events s → P events s →
      Performs f s command reply s' → P (events ++ [⟨s, command, reply⟩]) s') :
    P events s := by
  obtain ⟨reporter, c, hc, hr⟩ := h
  induction hr with
  | start => exact start reporter c hc
  | step run performs ih => exact step _ _ _ _ _ ⟨reporter, c, hc, run⟩ ih performs

end Session

end StackFront
