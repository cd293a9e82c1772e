import Mathlib.Data.List.DropRight
import StackFront.Proofs.Compilation.Operations

/-!
# What becomes of reported errors

Four calls drive a reporter: an error is reported, or reported without ending the process; the mode
is set; the errors that have been recorded are handed over. Here the answers to any sequence of such
calls are read off the sequence itself.

The one call that the process may not survive is a report, and it does not survive the first one that
is made in the mode `fatal`. Up to there each error is recorded once and handed over once. How errors
are shown has no part in this: neither the colour of the lines nor what the sink does with them makes
a difference to what is recorded, to what is handed over, or to where the process ends.

* `reported`, `unclaimed` and `modeAfter` are the errors of a history, those that have not been handed
  over, and the mode that it leads to. `Survives` says that no report of a history is fatal.
* `Accounts` is what holds of a reporter after a history, `Accounts.step` its preservation by one
  call, and `exists_callAll` the run. `Ended` is what a fatal report makes of it.
* `callAll_agrees` compares two runs, and `line_true` two ways to write the same line.
* `diagnostics_are_conserved` puts them together.

The line of each error is offered to the sink once, that of a fatal report included. What the sink
takes of it is another matter: a sink that works takes every line, and a broken one takes none. What
the log gets instead is no matter of this module.
-/

namespace StackFront.Reporter

/-! ### Calls -/

/-- **A call** on a reporter. -/
inductive Call where
  | report (e : Diagnostic)
  | record (e : Diagnostic)
  | withMode (mode : ReportMode)
  | drain
deriving DecidableEq

/-- Carries out a call. The answer is the list of errors that are handed over. -/
def call (r : Reporter) : Call → Step (Aftermath (List Diagnostic × Reporter))
  | .report e => do
    let after ← r.report e
    return after.map fun r => ([], r)
  | .record e => do
    let r ← r.record e
    return .goesOn ([], r)
  | .withMode mode => return .goesOn ([], r.withMode mode)
  | .drain => return .goesOn r.drain

/-- Carries out calls one after the other, as long as the process goes on. There is an answer to each
call that it has survived. -/
def callAll (r : Reporter) : List Call → Step (Aftermath (List (List Diagnostic) × Reporter))
  | [] => return .goesOn ([], r)
  | c :: rest => do
    match ← r.call c with
    | .ends (_, r) => return .ends ([], r)
    | .goesOn (answer, r) => return (← r.callAll rest).map fun p => (answer :: p.1, p.2)

/-- A reporter that has reported nothing, with a sink that works or takes nothing. -/
def fresh (mode : ReportMode) (color broken : Bool) : Reporter := ⟨mode, color, ⟨broken, []⟩, []⟩

variable {f : Log.Filter} {r r' : Reporter} {e : Diagnostic} {c : Call} {mode : ReportMode}
  {color broken : Bool} {calls : List Call} {answer : List Diagnostic}
  {answers : List (List Diagnostic)}

theorem result_call_record (r : Reporter) (e : Diagnostic) :
    ((r.call (.record e)).run f).result = .ok (.goesOn ([], r.recorded e)) := by
  rw [call, Step.result_bind, result_record]
  rfl

/-- In the mode `collect` a report is a record. -/
theorem result_call_report_of_collect (hm : r.mode = .collect) (e : Diagnostic) :
    ((r.call (.report e)).run f).result = .ok (.goesOn ([], r.recorded e)) := by
  rw [call, Step.result_bind, report, hm]
  simp only [Step.result_map, result_record]
  rfl

/-- **A fatal report** writes the error, and leaves everything else as it was. -/
theorem result_call_report_of_fatal (hm : r.mode = .fatal) (e : Diagnostic) :
    ((r.call (.report e)).run f).result =
      .ok (.ends ([], { r with sink := r.sink.offer (line r.color e) })) := by
  have hreport : (r.report e).run f =
      (do
        let r ← r.write e
        Step.note .error .diagnostics e.text
        return Aftermath.ends r : Step (Aftermath Reporter)).run f := by
    unfold report
    rw [hm]
  rw [call, Step.result_bind, hreport]
  simp only [Step.result_bind, result_write, ok_bind, Step.result_note]
  rfl

/-- Another call is carried out after those that the process has survived. -/
theorem result_callAll_append (h : ((r.callAll calls).run f).result = .ok (.goesOn (answers, r')))
    (rest : List Call) :
    ((r.callAll (calls ++ rest)).run f).result =
      (fun after => after.map fun p => (answers ++ p.1, p.2)) <$>
        ((r'.callAll rest).run f).result := by
  induction calls generalizing r answers with
  | nil =>
    obtain ⟨rfl, rfl⟩ : [] = answers ∧ r = r' := by
      cases h
      exact ⟨rfl, rfl⟩
    rw [List.nil_append]
    rcases ((r.callAll rest).run f).result with e | p | p <;> rfl
  | cons c calls ih =>
    rw [callAll, Step.result_bind] at h
    rw [List.cons_append, callAll, Step.result_bind]
    rcases hc : ((r.call c).run f).result with e | ⟨answer, r₁⟩ | ⟨answer, r₁⟩
    · rw [hc] at h
      cases h
    · -- the process goes on after the first call, and after those before the last by assumption
      rw [hc, ok_bind] at h
      obtain ⟨after, hrest, ha⟩ := Step.exists_of_bind_pure h
      rcases after with ⟨answers', r₂⟩ | ⟨answers', r₂⟩
      · obtain ⟨rfl, rfl⟩ : answer :: answers' = answers ∧ r₂ = r' := by
          cases ha
          exact ⟨rfl, rfl⟩
        rw [ok_bind, Step.result_bind, ih hrest]
        rcases ((r₂.callAll rest).run f).result with e | p | p <;> rfl
      · cases ha
    · rw [hc] at h
      cases h

/-! ### Histories -/

/-- The error that a call reports, be it fatally. -/
def Call.error? : Call → Option Diagnostic
  | .report e | .record e => some e
  | _ => none

/-- The mode that a call sets. -/
def Call.mode? : Call → Option ReportMode
  | .withMode mode => some mode
  | _ => none

/-- **The errors of a history**, in order and with repetitions. -/
def reported (calls : List Call) : List Diagnostic := calls.filterMap Call.error?

/-- **The errors since the last time that errors were handed over.** -/
def unclaimed (calls : List Call) : List Diagnostic :=
  reported (calls.rtakeWhile fun c => c ≠ .drain)

/-- **The mode that a history leads to**: the one that was set last, if any was. -/
def modeAfter (mode : ReportMode) (calls : List Call) : ReportMode :=
  (calls.filterMap Call.mode?).getLast?.getD mode

/-- **No report of a history is fatal**: each is made in the mode `collect`. -/
def Survives (mode : ReportMode) (calls : List Call) : Prop :=
  ∀ before e, before ++ [.report e] <+: calls → modeAfter mode before = .collect

theorem reported_append (calls : List Call) (c : Call) :
    reported (calls ++ [c]) = reported calls ++ c.error?.toList := by
  unfold reported
  rw [List.filterMap_append]
  rcases c with e | e | mode | _ <;> rfl

theorem reported_append_of_none (calls : List Call) (hc : c.error? = none) :
    reported (calls ++ [c]) = reported calls := by
  rw [reported_append, hc]
  exact List.append_nil _

theorem unclaimed_append_drain (calls : List Call) : unclaimed (calls ++ [.drain]) = [] := by
  unfold unclaimed
  rw [List.rtakeWhile_concat, if_neg (by simp)]
  rfl

theorem unclaimed_append (calls : List Call) (hc : c ≠ .drain) :
    unclaimed (calls ++ [c]) = unclaimed calls ++ c.error?.toList := by
  unfold unclaimed
  rw [List.rtakeWhile_concat, if_pos (decide_eq_true hc), reported_append]

theorem modeAfter_append (mode : ReportMode) (calls : List Call) (c : Call) :
    modeAfter mode (calls ++ [c]) = c.mode?.getD (modeAfter mode calls) := by
  unfold modeAfter
  rw [List.filterMap_append]
  cases c with
  | withMode m => exact congrArg (fun o => o.getD mode) List.getLast?_concat
  | _ => exact congrArg (fun ms => ms.getLast?.getD mode) (List.append_nil _)

theorem survives_append_iff :
    Survives mode (calls ++ [c]) ↔
      Survives mode calls ∧ ∀ e, c = .report e → modeAfter mode calls = .collect := by
  unfold Survives
  simp only [List.prefix_concat_iff]
  constructor
  · intro h
    refine ⟨fun before e hb => h before e (.inr hb), ?_⟩
    rintro e rfl
    exact h calls e (.inl rfl)
  · rintro ⟨h, hc⟩ before e (heq | hb)
    · obtain ⟨rfl, hlast⟩ := List.append_inj' heq rfl
      exact hc e (List.cons.inj hlast).1.symm
    · exact h before e hb

/-- **A history is survived, or there is a first fatal report in it.** -/
theorem survives_or_exists_fatal (mode : ReportMode) (calls : List Call) :
    Survives mode calls ∨ ∃ before e, before ++ [.report e] <+: calls ∧ Survives mode before ∧
      modeAfter mode before = .fatal := by
  induction calls using List.reverseRecOn with
  | nil => exact .inl fun before e h => absurd (List.prefix_nil.mp h) (by simp)
  | append_singleton calls c ih =>
    rcases ih with h | ⟨before, e, hb, hrest⟩
    · by_cases hc : ∃ e, c = .report e ∧ modeAfter mode calls = .fatal
      · obtain ⟨e, rfl, hm⟩ := hc
        exact .inr ⟨calls, e, List.prefix_rfl, h, hm⟩
      · refine .inl (survives_append_iff.mpr ⟨h, fun e he => ?_⟩)
        rcases hm : modeAfter mode calls with _ | _
        · exact absurd ⟨e, he, hm⟩ hc
        · rfl
    · exact .inr ⟨before, e, hb.trans (List.prefix_append _ _), hrest⟩

/-! ### One run -/

/-- **What holds of a reporter after a history** that the process has survived, and of the answers
that it has given. -/
structure Accounts (mode : ReportMode) (color broken : Bool) (calls : List Call)
    (answers : List (List Diagnostic)) (r : Reporter) : Prop where
  mode_eq : r.mode = modeAfter mode calls
  color_eq : r.color = color
  /-- What is recorded is what has not been handed over. -/
  errors_eq : r.errors = unclaimed calls
  length_eq : answers.length = calls.length
  /-- What has been handed over was what had been recorded. -/
  handed : ∀ before, before ++ [.drain] <+: calls → answers[before.length]? = some (unclaimed before)
  /-- No error is lost and none is counted twice. -/
  conserved : answers.flatten ++ r.errors = reported calls
  /-- Offering a line does not mend or break the sink. -/
  broken_eq : r.sink.broken = broken
  /-- The line of every error was offered to the sink, in order, and no other. -/
  offered : r.sink.offered = (reported calls).map (line color)
  /-- A sink that works has taken all of them, and a broken one none. -/
  received : r.sink.received = if broken then [] else (reported calls).map (line color)

/-- **What a fatal report leaves** of the reporter that it was made to, after a history: its line has
been offered after those before it, and nothing else has changed. -/
structure Ended (color broken : Bool) (before : List Call) (e : Diagnostic) (r r' : Reporter) :
    Prop where
  eq_offer : r' = { r with sink := r.sink.offer (line color e) }
  offered : r'.sink.offered = (reported (before ++ [.report e])).map (line color)
  received : r'.sink.received =
    if broken then [] else (reported (before ++ [.report e])).map (line color)

/-- What a sink has taken follows from what it was offered. -/
theorem received_of_offered {s : Sink} {lines : List String} (hb : s.broken = broken)
    (ho : s.offered = lines) : s.received = if broken then [] else lines := by
  rw [Sink.received, hb, ho]

theorem accounts_fresh (mode : ReportMode) (color broken : Bool) :
    Accounts mode color broken [] [] (fresh mode color broken) where
  mode_eq := rfl
  color_eq := rfl
  errors_eq := rfl
  length_eq := rfl
  handed := fun before h => absurd (List.prefix_nil.mp h) (by simp)
  conserved := rfl
  broken_eq := rfl
  offered := rfl
  received := by cases broken <;> rfl

namespace Accounts

theorem length_append (h : Accounts mode color broken calls answers r) (answer : List Diagnostic)
    (c : Call) : (answers ++ [answer]).length = (calls ++ [c]).length := by
  rw [List.length_append, List.length_append, h.length_eq]
  rfl

/-- What was handed over by a history is handed over by one that goes on. -/
theorem handed_append (h : Accounts mode color broken calls answers r)
    (hc : c = .drain → answer = unclaimed calls) (before : List Call)
    (hb : before ++ [.drain] <+: calls ++ [c]) :
    (answers ++ [answer])[before.length]? = some (unclaimed before) := by
  rcases List.prefix_concat_iff.mp hb with heq | hb
  · -- the last call is the one that is meant
    obtain ⟨rfl, hlast⟩ := List.append_inj' heq rfl
    rw [← h.length_eq, List.getElem?_concat_length, hc (List.cons.inj hlast).1.symm]
  · have hlt : before.length < answers.length := by
      have := hb.length_le
      rw [List.length_append, List.length_singleton] at this
      rw [h.length_eq]
      omega
    rw [List.getElem?_append_left hlt]
    exact h.handed before hb

/-- One line more is offered for one error more, whether or not it is recorded. -/
theorem offered_append (h : Accounts mode color broken calls answers r) (hc : c.error? = some e) :
    (r.sink.offer (line color e)).offered = (reported (calls ++ [c])).map (line color) := by
  rw [reported_append, hc, List.map_append, ← h.offered]
  rfl

/-- A call that reports no error offers no line. -/
theorem offered_append_of_none (h : Accounts mode color broken calls answers r)
    (hc : c.error? = none) : r.sink.offered = (reported (calls ++ [c])).map (line color) := by
  rw [reported_append_of_none calls hc]
  exact h.offered

/-- A fatal report shows its error, and does not record it. -/
theorem ended (h : Accounts mode color broken calls answers r) (e : Diagnostic) :
    Ended color broken calls e r { r with sink := r.sink.offer (line color e) } where
  eq_offer := rfl
  offered := h.offered_append rfl
  received := received_of_offered h.broken_eq (h.offered_append rfl)

/-- Recording an error shows it, and keeps it until errors are handed over. -/
theorem recorded (h : Accounts mode color broken calls answers r) (hc : c.error? = some e) :
    Accounts mode color broken (calls ++ [c]) (answers ++ [[]]) (r.recorded e) := by
  have hdrain : c ≠ .drain := by
    rintro rfl
    cases hc
  have hmode : c.mode? = none := by
    cases c with
    | withMode mode => cases hc
    | _ => rfl
  have hreported : reported (calls ++ [c]) = reported calls ++ [e] := by rw [reported_append, hc]; rfl
  have hoffered : (r.recorded e).sink.offered = (reported (calls ++ [c])).map (line color) := by
    rw [← h.offered_append hc, ← h.color_eq]
    rfl
  refine ⟨?_, h.color_eq, ?_, ?_, ?_, ?_, h.broken_eq, hoffered,
    received_of_offered h.broken_eq hoffered⟩
  · rw [modeAfter_append, hmode]
    exact h.mode_eq
  · rw [unclaimed_append calls hdrain, hc, ← h.errors_eq]
    rfl
  · exact h.length_append _ _
  · exact h.handed_append fun hd => absurd hd hdrain
  · rw [hreported, ← h.conserved]
    simp [Reporter.recorded]

theorem withMode (h : Accounts mode color broken calls answers r) (m : ReportMode) :
    Accounts mode color broken (calls ++ [.withMode m]) (answers ++ [[]]) (r.withMode m) := by
  have hreported : reported (calls ++ [.withMode m]) = reported calls :=
    reported_append_of_none calls rfl
  have hoffered : r.sink.offered = (reported (calls ++ [.withMode m])).map (line color) :=
    h.offered_append_of_none rfl
  refine ⟨?_, h.color_eq, ?_, ?_, ?_, ?_, h.broken_eq, hoffered,
    received_of_offered h.broken_eq hoffered⟩
  · rw [modeAfter_append]
    rfl
  · rw [unclaimed_append calls (by simp)]
    exact h.errors_eq.trans (List.append_nil _).symm
  · exact h.length_append _ _
  · exact h.handed_append fun hd => by cases hd
  · rw [hreported, ← h.conserved]
    simp [Reporter.withMode]

theorem drain (h : Accounts mode color broken calls answers r) :
    Accounts mode color broken (calls ++ [.drain]) (answers ++ [r.drain.1]) r.drain.2 := by
  have hreported : reported (calls ++ [.drain]) = reported calls :=
    reported_append_of_none calls rfl
  have hoffered : r.sink.offered = (reported (calls ++ [.drain])).map (line color) :=
    h.offered_append_of_none rfl
  refine ⟨?_, h.color_eq, ?_, ?_, ?_, ?_, h.broken_eq, hoffered,
    received_of_offered h.broken_eq hoffered⟩
  · rw [modeAfter_append]
    exact h.mode_eq
  · rw [unclaimed_append_drain]
    rfl
  · exact h.length_append _ _
  · exact h.handed_append fun _ => h.errors_eq
  · rw [hreported, ← h.conserved]
    simp [Reporter.drain]

/-- **One call**: unless it is a fatal report, the process goes on and the accounts are in order. -/
theorem step (h : Accounts mode color broken calls answers r)
    (hc : ∀ e, c = .report e → modeAfter mode calls = .collect) (f : Log.Filter) :
    ∃ answer r', ((r.call c).run f).result = .ok (.goesOn (answer, r')) ∧
      Accounts mode color broken (calls ++ [c]) (answers ++ [answer]) r' := by
  cases c with
  | report e =>
    have hm : r.mode = .collect := h.mode_eq.trans (hc e rfl)
    exact ⟨_, _, result_call_report_of_collect hm e, h.recorded rfl⟩
  | record e => exact ⟨_, _, result_call_record r e, h.recorded rfl⟩
  | withMode m => exact ⟨_, _, rfl, h.withMode m⟩
  | drain => exact ⟨_, _, rfl, h.drain⟩

end Accounts

/-- **A run of calls that the process survives.** -/
theorem exists_callAll (f : Log.Filter) (color broken : Bool) (h : Survives mode calls) :
    ∃ answers r, (((fresh mode color broken).callAll calls).run f).result =
      .ok (.goesOn (answers, r)) ∧ Accounts mode color broken calls answers r := by
  induction calls using List.reverseRecOn with
  | nil => exact ⟨[], _, rfl, accounts_fresh mode color broken⟩
  | append_singleton calls c ih =>
    obtain ⟨hcalls, hc⟩ := survives_append_iff.mp h
    obtain ⟨answers, r, hrun, haccounts⟩ := ih hcalls
    obtain ⟨answer, r', hcall, haccounts'⟩ := haccounts.step hc f
    refine ⟨_, r', ?_, haccounts'⟩
    rw [result_callAll_append hrun, callAll, Step.result_bind, hcall]
    rfl

/-- **A run of calls with a fatal report** ends there, whatever was to come. -/
theorem exists_callAll_of_fatal (f : Log.Filter) (color broken : Bool) {before : List Call}
    (hb : before ++ [.report e] <+: calls) (h : Survives mode before)
    (hm : modeAfter mode before = .fatal) :
    ∃ answers r r', Accounts mode color broken before answers r ∧ Ended color broken before e r r' ∧
      (((fresh mode color broken).callAll calls).run f).result = .ok (.ends (answers, r')) := by
  obtain ⟨after, rfl⟩ := hb
  obtain ⟨answers, r, hrun, haccounts⟩ := exists_callAll f color broken h
  have hfatal := result_call_report_of_fatal (f := f) (haccounts.mode_eq.trans hm) e
  refine ⟨answers, r, _, haccounts, haccounts.ended e, ?_⟩
  rw [List.append_assoc, result_callAll_append hrun, List.singleton_append, callAll,
    Step.result_bind, hfatal, haccounts.color_eq, ok_bind]
  simp only [Step.result_pure, map_ok, Aftermath.map, List.append_nil]

/-! ### Two runs -/

/-- **What a run shows of a reporter**: the answers, which tell how far it has come, and the mode, the
errors and their count; not the colour, and not the sink. -/
def visible (after : Aftermath (List (List Diagnostic) × Reporter)) :
    Aftermath (List (List Diagnostic) × ReportMode × List Diagnostic × Nat) :=
  after.map fun p => (p.1, p.2.mode, p.2.errors, p.2.count)

/-- What a run shows is its first answer, and then what the rest of it shows. -/
theorem map_visible_callAll_cons (h : ((r.call c).run f).result = .ok (.goesOn (answer, r')))
    (calls : List Call) :
    ((r.callAll (c :: calls)).run f).result.map visible =
      (((r'.callAll calls).run f).result.map visible).map fun after =>
        after.map fun p => (answer :: p.1, p.2) := by
  rw [callAll, Step.result_bind, h, ok_bind, Step.result_bind]
  rcases ((r'.callAll calls).run f).result with e | p | p <;> rfl

/-- **Two runs of the same calls** show the same if they begin with the same mode and errors. -/
theorem callAll_agrees (f f' : Log.Filter) (hm : r.mode = r'.mode) (he : r.errors = r'.errors)
    (calls : List Call) :
    ((r.callAll calls).run f).result.map visible =
      ((r'.callAll calls).run f').result.map visible := by
  induction calls generalizing r r' with
  | nil =>
    change Except.ok (Aftermath.goesOn ([], r.mode, r.errors, r.errors.length)) =
      Except.ok (Aftermath.goesOn ([], r'.mode, r'.errors, r'.errors.length))
    rw [hm, he]
  | cons c calls ih =>
    -- one call with the same answer, after which the modes and the errors are the same again
    have go {answer : List Diagnostic} {r₁ r₁' : Reporter}
        (hc : ((r.call c).run f).result = .ok (.goesOn (answer, r₁)))
        (hc' : ((r'.call c).run f').result = .ok (.goesOn (answer, r₁')))
        (hm₁ : r₁.mode = r₁'.mode) (he₁ : r₁.errors = r₁'.errors) :
        ((r.callAll (c :: calls)).run f).result.map visible =
          ((r'.callAll (c :: calls)).run f').result.map visible := by
      rw [map_visible_callAll_cons hc, map_visible_callAll_cons hc', ih hm₁ he₁]
    cases c with
    | report e =>
      rcases hmode : r.mode with _ | _
      · have hmode' : r'.mode = .fatal := hm.symm.trans hmode
        rw [callAll, callAll, Step.result_bind, Step.result_bind,
          result_call_report_of_fatal hmode, result_call_report_of_fatal hmode']
        change Except.ok (Aftermath.ends ([], r.mode, r.errors, r.errors.length)) =
          Except.ok (Aftermath.ends ([], r'.mode, r'.errors, r'.errors.length))
        rw [hm, he]
      · have hmode' : r'.mode = .collect := hm.symm.trans hmode
        exact go (result_call_report_of_collect hmode e) (result_call_report_of_collect hmode' e)
          hm (congrArg (· ++ [e]) he)
    | record e =>
      exact go (result_call_record r e) (result_call_record r' e) hm (congrArg (· ++ [e]) he)
    | withMode m => exact go rfl rfl rfl he
    | drain =>
      have hdrain : ((r'.call .drain).run f').result =
          .ok (.goesOn (r.errors, { r' with errors := [] })) := by
        rw [he]
        rfl
      exact go rfl hdrain hm rfl

/-! ### Lines -/

/-- Where an error is said to be. This is what a colour is put around. -/
def heading (e : Diagnostic) : String := s!"Error {e.location.text}:"

/-- What the error is. -/
def ending (e : Diagnostic) : String := s!" {e.cause.message}\n"

theorem line_false (e : Diagnostic) : line false e = heading e ++ ending e := by
  change ("Error " ++ e.location.text ++ ": " ++ e.cause.message) ++ "\n" =
    ("Error " ++ e.location.text ++ ":") ++ (" " ++ e.cause.message ++ "\n")
  rw [show (": " : String) = ":" ++ " " from rfl]
  simp only [String.append_assoc]

/-- **A coloured line** is the plain one with two escape sequences put in. -/
theorem line_true (e : Diagnostic) :
    line true e = colorOn ++ heading e ++ colorOff ++ ending e := by
  change colorOn ++ "Error " ++ e.location.text ++ ":" ++ colorOff ++ " " ++ e.cause.message ++ "\n" =
    colorOn ++ ("Error " ++ e.location.text ++ ":") ++ colorOff ++ (" " ++ e.cause.message ++ "\n")
  simp only [String.append_assoc]

/-! ### Diagnostics are conserved -/

/-- **Diagnostics are neither lost, doubled nor changed by the way they are shown.** The process ends
at the first report that is made in the mode `fatal`, which offers its line and records nothing, and
otherwise not at all. What a history has come to by then is in `Accounts`, and what the fatal report
leaves of it in `Ended`. A run with another colour, with another sink and under another filter shows
the same. -/
theorem diagnostics_are_conserved (f f' : Log.Filter) (mode : ReportMode)
    (color color' broken broken' : Bool) (calls : List Call) :
    ((Survives mode calls ∧ ∃ answers r,
        (((fresh mode color broken).callAll calls).run f).result = .ok (.goesOn (answers, r)) ∧
        Accounts mode color broken calls answers r) ∨
      ∃ before e answers r r', before ++ [.report e] <+: calls ∧ Survives mode before ∧
        modeAfter mode before = .fatal ∧ Accounts mode color broken before answers r ∧
        Ended color broken before e r r' ∧
        (((fresh mode color broken).callAll calls).run f).result = .ok (.ends (answers, r'))) ∧
    (((fresh mode color broken).callAll calls).run f).result.map visible =
      (((fresh mode color' broken').callAll calls).run f').result.map visible ∧
    ∀ e, line true e = colorOn ++ heading e ++ colorOff ++ ending e ∧
      line false e = heading e ++ ending e := by
  have hmode : (fresh mode color broken).mode = (fresh mode color' broken').mode := rfl
  have herrors : (fresh mode color broken).errors = (fresh mode color' broken').errors := rfl
  refine ⟨?_, callAll_agrees f f' hmode herrors calls, fun e => ⟨line_true e, line_false e⟩⟩
  rcases survives_or_exists_fatal mode calls with h | ⟨before, e, hb, h, hm⟩
  · exact .inl ⟨h, exists_callAll f color broken h⟩
  · obtain ⟨answers, r, r', haccounts, hended, hrun⟩ :=
      exists_callAll_of_fatal f color broken hb h hm
    exact .inr ⟨before, e, answers, r, r', hb, h, hm, haccounts, hended, hrun⟩

end StackFront.Reporter
