import StackFront.Demo.Instruction
import StackFront.Proofs.Compilation.Run

/-!
# Refusals

Ten commands can be refused. Some of them look at several tables before they write to one, and some
are refused by a part of the compilation that knows nothing of locations. A refusal of any of them
leaves everything as it was, except that the current location has moved to the name that was turned
down, if there was one; and this is where the error is said to be.

* `Command.token?` is the token that bears the name, and `Command.place` where a command happens.
* `Attempt` is all that can come of a fallible command: it is refused at its place, or it is not
  refused and has moved there just the same. `Performs.attempt` says so, command by command.
* `refusal_is_atomic` reads off what a parser can rely on.
-/

namespace StackFront

variable {ω : Type}

/-- **The commands that can be refused.** -/
def Command.fallible : Command ω → Bool
  | .vetName _ _ | .declareConstant _ _ | .declareEnum _ _ | .declareMemory _ _
  | .declareStruct _ _ _ _ | .declareProcedure _ _ _ _ => true
  | .leaveBlockBy _ | .leaveRegion | .procedureOf _ | .complete => true
  | _ => false

/-- The token that bears the name that a command is about. -/
def Command.token? : Command ω → Option Token
  | .vetName t _ | .declareConstant t _ | .declareEnum t _ | .declareMemory t _
  | .declareStruct t _ _ _ | .declareProcedure t _ _ _ => some t
  | _ => none

/-- Where a command happens: at the name that it is about, or else where the reader is. -/
def Command.place (command : Command ω) (here : Location) : Location :=
  (command.token?.map Token.location).getD here

/-- **An attempt** at something that can be refused, at a place. -/
inductive Attempt (s : Session ω) (place : Location) : Reply → Session ω → Prop
  /-- The location has moved there, and nothing else has changed. -/
  | refused (cause : Cause) :
      Attempt s place (.refused ⟨place, cause⟩) (s.withCompilation (s.compilation.moveTo place))
  | granted {reply : Reply} {s' : Session ω} (not_refused : ∀ e, reply ≠ .refused e)
      (moved : s'.compilation.location = place) : Attempt s place reply s'

namespace Session

variable [Opcode ω] {f : Log.Filter} {s s' : Session ω} {command : Command ω} {reply : Reply}

/-- **A fallible command is an attempt at its place.** -/
theorem Performs.attempt (h : Performs f s command reply s') (hc : command.fallible = true) :
    Attempt s (command.place s.compilation.location) reply s' := by
  cases command with
  | vetName t entity =>
    cases h.act
    rcases hv : s.compilation.globals.vet t.text entity with cause | _
    · rw [Compilation.vetName_of_error hv]
      exact .refused cause
    · rw [Compilation.vetName_of_ok hv]
      exact .granted (by rintro e ⟨⟩) rfl
  | declareConstant t value =>
    obtain ⟨r, hr, hs⟩ := Step.exists_of_bind_pure h.act
    rcases Compilation.declareConstant_eq_ok_iff.mp hr with ⟨cause, -, rfl⟩ | ⟨-, rfl⟩
    · cases hs
      exact .refused cause
    · cases hs
      exact .granted (by rintro e ⟨⟩) rfl
  | declareEnum t variants =>
    obtain ⟨r, hr, hs⟩ := Step.exists_of_bind_pure h.act
    rcases Compilation.declareEnum_eq_ok_iff.mp hr with ⟨cause, -, rfl⟩ | ⟨-, rfl⟩
    · cases hs
      exact .refused cause
    · cases hs
      exact .granted (by rintro e ⟨⟩) rfl
  | declareMemory t size =>
    obtain ⟨r, hr, hs⟩ := Step.exists_of_bind_pure h.act
    rcases Compilation.declareMemory_eq_ok_iff.mp hr with
      ⟨cause, -, rfl⟩ | ⟨-, ⟨-, hg⟩ | ⟨id, -, hl⟩⟩
    · cases hs
      exact .refused cause
    · obtain ⟨reserved, -, rfl⟩ := Compilation.allocateGlobal_eq_ok_iff.mp hg
      cases hs
      exact .granted (by rintro e ⟨⟩) rfl
    · obtain ⟨p, -, ⟨-, rfl⟩ | ⟨-, reserved, -, rfl⟩⟩ := Compilation.allocateIn_eq_ok_iff.mp hl
      · -- the procedure has the name, which is found out when the location has moved already
        cases hs
        exact .refused _
      · cases hs
        exact .granted (by rintro e ⟨⟩) rfl
  | declareStruct t fields parent defaults =>
    obtain ⟨r, hr, hs⟩ := Step.exists_of_bind_pure h.act
    rcases Compilation.declareStruct_eq_ok_iff.mp hr with
      ⟨cause, -, rfl⟩ | ⟨-, id, types, -, rfl⟩
    · cases hs
      exact .refused cause
    · cases hs
      exact .granted (by rintro e ⟨⟩) rfl
  | declareProcedure t inputs outputs block =>
    obtain ⟨r, hr, hs⟩ := Step.exists_of_bind_pure h.act
    rcases Compilation.declareProcedure_eq_ok_iff.mp hr with
      ⟨cause, -, rfl⟩ | ⟨-, id, c, hc, rfl⟩
    · cases hs
      exact .refused cause
    · -- with owner and without, the procedure is entered where the location has moved to
      obtain ⟨d, arena, types, -, rfl⟩ := Compilation.commitProcedure_of_ok hc
      cases hs
      exact .granted (by rintro e ⟨⟩) rfl
  | leaveBlockBy closing =>
    obtain ⟨r, hr, hs⟩ := Step.exists_of_bind_pure h.act
    rcases Compilation.leaveBlockBy_eq_ok_iff.mp hr with
      ⟨cause, -, rfl⟩ | ⟨top, rest, -, -, rfl⟩
    · cases hs
      exact .refused cause
    · cases hs
      exact .granted (by rintro e ⟨⟩) rfl
  | leaveRegion =>
    have hact := h.act
    rw [Session.act, Compilation.leaveRegion] at hact
    rcases hr : s.compilation.regions.leave with cause | regions
    · rw [hr] at hact
      cases hact
      exact .refused cause
    · rw [hr] at hact
      cases hact
      exact .granted (by rintro e ⟨⟩) rfl
  | procedureOf block =>
    have hact := h.act
    rw [Session.act, Compilation.procedureOf] at hact
    rcases ho : (s.compilation.instruction? block.start).bind Opcode.procedure? with _ | id
    · rw [ho] at hact
      cases hact
      exact .refused (.notAProcedure block.start)
    · rw [ho] at hact
      cases hact
      exact .granted (by rintro e ⟨⟩) rfl
  | complete =>
    have hact := h.act
    rw [Session.act, Compilation.complete] at hact
    rcases ha : (s.compilation.position.blocks.allEnded >>= fun _ =>
      s.compilation.regions.allLeft) with cause | _
    · rw [ha] at hact
      cases hact
      exact .refused cause
    · rw [ha] at hact
      cases hact
      exact .granted (by rintro e ⟨⟩) rfl
  | _ => cases hc

/-- **Refusals are atomic, and located.** What a fallible command is refused, whatever it is and
whatever the session, has changed nothing but the current location, and the error is there. Refused
or not, a command that is about a name has moved the location to the name, and any other has left it
alone. -/
theorem refusal_is_atomic (h : Performs f s command reply s') (hc : command.fallible = true) :
    (∀ e, reply = .refused e →
      s' = s.withCompilation (s.compilation.moveTo s'.compilation.location) ∧
        e.location = s'.compilation.location) ∧
      (∀ t, command.token? = some t → s'.compilation.location = t.location) ∧
      (command.token? = none → s'.compilation.location = s.compilation.location) := by
  have hattempt := h.attempt hc
  have hmoved : s'.compilation.location = command.place s.compilation.location := by
    cases hattempt with
    | refused => rfl
    | granted not_refused moved => exact moved
  refine ⟨fun e he => ?_, fun t ht => ?_, fun ht => ?_⟩
  · cases hattempt with
    | refused cause =>
      cases he
      exact ⟨rfl, rfl⟩
    | granted not_refused moved => exact absurd he (not_refused e)
  · rw [hmoved, Command.place, ht]
    rfl
  · rw [hmoved, Command.place, ht]
    rfl

/-- The procedure `main` gives the name `scratch` to memory of its own. -/
def scratched : List (Command Demo.Instruction) :=
  [.declareProcedure ⟨"main", ⟨"main.stk", 1, 6⟩⟩ [] [] ⟨.procedure, 0, none⟩, .enterBody ⟨0⟩,
    .declareMemory ⟨"scratch", ⟨"main.stk", 2, 10⟩⟩ 5]

/-- A second `scratch` in `main` passes for a new name globally, is refused in `main`, and leaves
only its location behind. -/
theorem second_scratch_leaves_nothing :
    ∃ c e s', Compilation.create .default (.create .collect false) = .ok c ∧
      Performs .off ((start c).play .off scratched).2
        (.declareMemory ⟨"scratch", ⟨"main.stk", 3, 10⟩⟩ 5) (.refused e) s' ∧
      s' = ((start c).play .off scratched).2.withCompilation
        (((start c).play .off scratched).2.compilation.moveTo s'.compilation.location) ∧
      e.location = ⟨"main.stk", 3, 10⟩ := by
  obtain ⟨c, hc⟩ : ∃ c : Compilation Demo.Instruction,
      Compilation.create .default (.create .collect false) = .ok c := ⟨_, rfl⟩
  have hp : ∃ e s', Performs .off ((start c).play .off scratched).2
      (.declareMemory ⟨"scratch", ⟨"main.stk", 3, 10⟩⟩ 5) (.refused e) s' := by
    cases hc
    exact ⟨_, _, rfl⟩
  obtain ⟨e, s', hp⟩ := hp
  obtain ⟨hrefused, hnamed, -⟩ := refusal_is_atomic hp rfl
  obtain ⟨hleft, hlocated⟩ := hrefused e rfl
  exact ⟨c, e, s', hc, hp, hleft, hlocated.trans (hnamed _ rfl)⟩

end Session

end StackFront
