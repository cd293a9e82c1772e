import Mathlib.Data.List.TakeWhile
import StackFront.Demo.Instruction
import StackFront.Proofs.Compilation.Frame

/-!
# The conditions of the regions that are open

A compilation follows its conditional regions by two numbers, and keeps no condition. What the two
numbers stand for is a stack of conditions: a region puts its condition on the stack when it is
entered, and takes the topmost one off when it is left. Nothing else touches the stack. In
particular a detour does not: the position that a session comes back to says nothing of regions, so
that those entered on the way are still open.

The stack is written with the outermost condition first. Text is skipped from the outermost false
condition on, whatever the conditions inside are; so the regions that are skipped are a suffix of
the stack, and leaving a region, which shortens the stack at its end, shortens this suffix as long as
there is one.

* `Regions.Counts` is the invariant: the two numbers are the lengths of the stack and of the suffix.
* `conditions` reads the stack off a history.
* `regions_follow_conditions` is the result.
-/

namespace StackFront

/-! ### Two numbers for a stack of conditions -/

namespace Regions

/-- **What two numbers say of a stack of conditions**, outermost first. -/
structure Counts (r : Regions) (stack : List Bool) : Prop where
  opened_eq : r.opened = stack.length
  /-- What is skipped begins with the outermost condition that is false. -/
  skipped_eq : r.skipped = (stack.dropWhile id).length

variable {r : Regions} {stack : List Bool}

theorem Counts.empty : empty.Counts [] := ⟨rfl, rfl⟩

theorem dropWhile_id_ne_nil_iff : stack.dropWhile id ≠ [] ↔ false ∈ stack := by
  simp [List.dropWhile_eq_nil_iff]

/-- Text is skipped if any of the conditions is false. -/
theorem Counts.skips_iff (h : r.Counts stack) : r.skips = true ↔ false ∈ stack := by
  rw [← dropWhile_id_ne_nil_iff, ← List.length_pos_iff, ← h.skipped_eq]
  exact decide_eq_true_iff

theorem Counts.opened_eq_zero_iff (h : r.Counts stack) : r.opened = 0 ↔ stack = [] := by
  rw [h.opened_eq, List.length_eq_zero_iff]

/-- **Entering** puts a condition on the stack. -/
theorem Counts.enter (h : r.Counts stack) (condition : Bool) :
    (r.enter condition).Counts (stack ++ [condition]) := by
  refine ⟨?_, ?_⟩
  · rw [List.length_append, ← h.opened_eq]
    rfl
  · have hskips := h.skips_iff.trans dropWhile_id_ne_nil_iff.symm
    rw [List.dropWhile_append]
    by_cases hs : r.skips = true
    · -- inside a false region, the condition lengthens what is skipped whatever it is
      have hsuffix : (stack.dropWhile id).isEmpty = false :=
        List.isEmpty_eq_false_iff.mpr (hskips.mp hs)
      simp [Regions.enter, hs, hsuffix, h.skipped_eq]
    · -- otherwise it begins a suffix of its own, if it is false
      have hsuffix : stack.dropWhile id = [] := by
        by_contra hne
        exact hs (hskips.mpr hne)
      have hzero : r.skipped = 0 := by rw [h.skipped_eq, hsuffix]; rfl
      cases condition <;> simp [Regions.enter, hs, hsuffix, hzero]

/-- **Leaving** is refused where the stack is empty. -/
theorem Counts.leave_nil (h : r.Counts []) : r.leave = .error .unbalancedRegion := by
  unfold leave
  rw [if_pos (h.opened_eq_zero_iff.mpr rfl)]

/-- **Leaving** takes the innermost condition off the stack. -/
theorem Counts.leave (h : r.Counts stack) (hs : stack ≠ []) :
    ∃ r', r.leave = .ok r' ∧ r'.Counts stack.dropLast := by
  unfold Regions.leave
  rw [if_neg (mt h.opened_eq_zero_iff.mp hs)]
  refine ⟨_, rfl, ?_, ?_⟩
  · rw [List.length_dropLast, ← h.opened_eq]
  · -- the suffix loses its last condition, which is that of the stack, unless it is empty
    obtain ⟨outer, innermost, rfl⟩ := stack.eq_nil_or_concat.resolve_left hs
    have hskipped := h.skipped_eq
    rw [List.concat_eq_append, List.dropWhile_append] at hskipped
    simp only [List.concat_eq_append, List.dropLast_concat]
    rw [hskipped]
    split
    · next hempty =>
      rw [List.isEmpty_iff.mp hempty]
      cases innermost <;> rfl
    · simp

end Regions

/-! ### The conditions of a history -/

variable {ω : Type}

/-- What an event makes of the stack of conditions. A region that could not be left makes nothing of
it. -/
def Event.restack (e : Event ω) (stack : List Bool) : List Bool :=
  match e.command, e.reply with
  | .enterRegion condition, _ => stack ++ [condition]
  | .leaveRegion, .done => stack.dropLast
  | _, _ => stack

/-- **The conditions of the regions that a history has entered and not left**, outermost first. -/
def conditions (events : List (Event ω)) : List Bool :=
  events.foldl (fun stack e => e.restack stack) []

theorem conditions_append (events : List (Event ω)) (e : Event ω) :
    conditions (events ++ [e]) = e.restack (conditions events) := by
  unfold conditions
  rw [List.foldl_append]
  rfl

namespace Session

variable [Opcode ω] {f : Log.Filter} {settings : Settings} {s s' : Session ω}
  {command : Command ω} {reply : Reply} {events : List (Event ω)} {stack : List Bool}

/-- Leaving is refused as the two numbers say, and the session stays as it is. -/
theorem performs_leaveRegion_of_error {cause : Cause}
    (h : s.compilation.regions.leave = .error cause) :
    Performs f s .leaveRegion (.refused (s.compilation.errorHere cause)) s := by
  refine performs_of_act (fun _ => by simp) ?_
  rw [Session.act, Compilation.leaveRegion, h]
  rfl

theorem performs_leaveRegion_of_ok {regions : Regions}
    (h : s.compilation.regions.leave = .ok regions) :
    Performs f s .leaveRegion .done (s.withCompilation { s.compilation with regions }) := by
  refine performs_of_act (fun _ => by simp) ?_
  rw [Session.act, Compilation.leaveRegion, h]
  rfl

/-- **One step**: the two numbers follow the stack. -/
theorem Performs.counts (h : Performs f s command reply s')
    (hc : s.compilation.regions.Counts stack) :
    s'.compilation.regions.Counts ((⟨s, command, reply⟩ : Event ω).restack stack) := by
  cases command with
  | enterRegion condition =>
    cases h.act
    exact hc.enter condition
  | leaveRegion =>
    by_cases hs : stack = []
    · subst hs
      have hrefused := performs_leaveRegion_of_error (f := f) hc.leave_nil
      cases hrefused.symm.trans h
      exact hc
    · obtain ⟨regions, hleave, hregions⟩ := hc.leave hs
      have hdone := performs_leaveRegion_of_ok (f := f) hleave
      cases hdone.symm.trans h
      exact hregions
  | _ =>
    -- no other command is about regions, coming back from a detour included
    have hregions : s'.compilation.regions = s.compilation.regions :=
      h.keeps .regions (by simp [Command.writes])
    rw [hregions]
    exact hc

/-- **The two numbers follow the conditions of the history.** -/
theorem counts_of_reached (h : Reached f settings events s) :
    s.compilation.regions.Counts (conditions events) := by
  refine h.induction (P := fun events s => s.compilation.regions.Counts (conditions events)) ?_ ?_
  · intro reporter c hc
    obtain ⟨arena, -, rfl⟩ := Compilation.create_eq_ok_iff.mp hc
    exact .empty
  · intro events s command reply s' _ ih hs
    rw [conditions_append]
    exact hs.counts ih

/-- **Two numbers do for a stack of conditions.** Whatever the history of a session, detours
included, as many regions are open as there are conditions on its stack, and text is skipped if one
of them is false. A region can be left if the stack is not empty; if it is, leaving is refused and
changes nothing. Where no block is open the input is complete if the stack is empty, and otherwise
its height is what is complained about. -/
theorem regions_follow_conditions (h : Reached f settings events s) :
    s.compilation.regions.opened = (conditions events).length ∧
      (s.compilation.regions.skips = true ↔ false ∈ conditions events) ∧
      (conditions events = [] →
        Performs f s .leaveRegion (.refused (s.compilation.errorHere .unbalancedRegion)) s) ∧
      (conditions events ≠ [] → ∃ s', Performs f s .leaveRegion .done s') ∧
      (s.compilation.position.blocks.depth = 0 →
        s.compilation.complete =
          if conditions events = [] then .ok ()
          else .error
            (s.compilation.errorHere (.unclosedRegions (conditions events).length))) := by
  have hcounts := counts_of_reached h
  refine ⟨hcounts.opened_eq, hcounts.skips_iff, fun hnil => ?_, fun hne => ?_, fun hdepth => ?_⟩
  · rw [hnil] at hcounts
    exact performs_leaveRegion_of_error hcounts.leave_nil
  · obtain ⟨regions, hleave, -⟩ := hcounts.leave hne
    exact ⟨_, performs_leaveRegion_of_ok hleave⟩
  · have hblocks : s.compilation.position.blocks.allEnded = .ok () :=
      Nesting.allEnded_eq_ok_iff.mpr (List.length_eq_zero_iff.mp hdepth)
    unfold Compilation.complete
    rw [hblocks, ok_bind, Regions.allLeft, hcounts.opened_eq]
    simp only [List.length_eq_zero_iff]
    split <;> rfl

/-- Two regions, the inner one false; a third is entered and left on a detour, and the position from
before it is come back to. -/
def conditioned : List (Command Demo.Instruction) :=
  [.enterRegion true, .keepPosition "outer", .enterRegion false, .enterRegion true, .leaveRegion,
    .returnTo "outer"]

/-- Both regions are still open after the detour, and the inner one is skipped. -/
theorem inner_region_skipped :
    ∃ c, Compilation.create .default (.create .collect false) = .ok c ∧
      conditions ((start c).play .off conditioned).1 = [true, false] ∧
      ((start c).play .off conditioned).2.compilation.regions.skips = true ∧
      (∃ s', Performs .off ((start c).play .off conditioned).2 .leaveRegion .done s') ∧
      ((start c).play .off conditioned).2.compilation.complete =
        .error ⟨.unknown, .unclosedRegions 2⟩ := by
  have hr : Reached .off .default _ _ :=
    ⟨.create .collect false, _, rfl, run_play .off (start _) conditioned⟩
  obtain ⟨-, hskips, -, hleave, hcomplete⟩ := regions_follow_conditions hr
  refine ⟨_, rfl, rfl, hskips.mpr ?_, hleave ?_, (hcomplete rfl).trans ?_⟩
  · decide
  · decide
  · rfl

end Session

end StackFront
