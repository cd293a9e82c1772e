import StackFront.Demo.Instruction
import StackFront.Proofs.Compilation.Detour

/-!
# The ranges of blocks

A block is opened at the current instruction pointer and closed at the current instruction pointer.
That it does not end before it starts is clear as long as the blocks that are open are only opened
and closed. But a detour may close blocks that were open before it, emit instructions, and come back
to a position in which those blocks are open again: the blocks go back, and the instructions do not.

What makes the ranges come out right is that the instruction pointer never goes back. Blocks that
were in order with respect to it when their position was kept are in order ever after, and so are the
blocks of every position that a session may come back to.

* `Nesting.OpenAt` says that open blocks are in order with respect to an instruction pointer.
* `Performs.ip_le`: no step takes the instruction pointer back.
* `Ranged` is the invariant, for the blocks that are open and for those that have been kept.
* `blocks_in_range` is the result.
-/

namespace StackFront

/-! ### Open blocks and the instruction pointer -/

namespace Nesting

/-- **Open blocks, in order**: they start one after the other, none later than the instruction
pointer, and none has an end. -/
structure OpenAt (n : Nesting) (ip : Nat) : Prop where
  starts_sorted : n.outermostFirst.Pairwise fun outer inner => outer.start ≤ inner.start
  start_le : ∀ b ∈ n.outermostFirst, b.start ≤ ip
  stop_eq : ∀ b ∈ n.outermostFirst, b.stop = none

variable {n : Nesting} {ip ip' : Nat}

theorem outermostFirst_cons (b : Block) (rest : List Block) :
    (⟨b :: rest⟩ : Nesting).outermostFirst = (⟨rest⟩ : Nesting).outermostFirst ++ [b] :=
  List.reverse_cons

theorem OpenAt.empty : empty.OpenAt ip := by
  refine ⟨.nil, ?_, ?_⟩
  · intro b hb
    cases hb
  · intro b hb
    cases hb

/-- Blocks that are in order stay so while the instruction pointer advances. -/
theorem OpenAt.mono (h : n.OpenAt ip) (hle : ip ≤ ip') : n.OpenAt ip' :=
  ⟨h.starts_sorted, fun b hb => Nat.le_trans (h.start_le b hb) hle, h.stop_eq⟩

/-- **A block that is opened** starts where no other block starts later. -/
theorem OpenAt.enter (h : n.OpenAt ip) (kind : BlockKind) :
    OpenAt ⟨⟨kind, ip, none⟩ :: n.blocks⟩ ip := by
  refine ⟨?_, ?_, ?_⟩
  · rw [outermostFirst_cons]
    refine List.pairwise_append.mpr ⟨h.starts_sorted, List.pairwise_singleton _ _, ?_⟩
    intro outer houter inner hinner
    rw [List.mem_singleton.mp hinner]
    exact h.start_le outer houter
  · intro b hb
    rw [outermostFirst_cons, List.mem_append, List.mem_singleton] at hb
    rcases hb with hb | rfl
    · exact h.start_le b hb
    · exact Nat.le_refl _
  · intro b hb
    rw [outermostFirst_cons, List.mem_append, List.mem_singleton] at hb
    rcases hb with hb | rfl
    · exact h.stop_eq b hb
    · rfl

/-- **The innermost block** starts no earlier than the blocks around it, which are in order
themselves. -/
theorem OpenAt.leave {top : Block} {rest : List Block} (h : n.OpenAt ip)
    (hb : n.blocks = top :: rest) :
    OpenAt ⟨rest⟩ ip ∧ top.start ≤ ip ∧
      ∀ outer ∈ (⟨rest⟩ : Nesting).outermostFirst, outer.start ≤ top.start := by
  obtain rfl : n = ⟨top :: rest⟩ := by rw [← hb]
  obtain ⟨hsorted, hle, hstop⟩ := h
  rw [outermostFirst_cons] at hsorted hle hstop
  obtain ⟨hrest, -, houter⟩ := List.pairwise_append.mp hsorted
  have hmem : ∀ b ∈ (⟨rest⟩ : Nesting).outermostFirst,
      b ∈ (⟨rest⟩ : Nesting).outermostFirst ++ [top] := fun b hb => List.mem_append_left _ hb
  have htop : top ∈ (⟨rest⟩ : Nesting).outermostFirst ++ [top] :=
    List.mem_append_right _ (List.mem_singleton_self top)
  refine ⟨⟨hrest, fun b hb => hle b (hmem b hb), fun b hb => hstop b (hmem b hb)⟩, hle top htop, ?_⟩
  exact fun outer ho => houter outer ho top (List.mem_singleton_self top)

end Nesting

variable {ω : Type}

theorem Compilation.ip_eq (c : Compilation ω) : c.ip = c.instructions.size - 1 := by
  unfold ip ip?
  split
  · next h => simp [Array.isEmpty_iff.mp h]
  · rfl

namespace Session

variable [Opcode ω] {f : Log.Filter} {settings : Settings} {s s' : Session ω}
  {command : Command ω} {reply : Reply} {events : List (Event ω)}

/-- **No step takes the instruction pointer back.** -/
theorem Performs.ip_le (h : Performs f s command reply s') :
    s.compilation.ip ≤ s'.compilation.ip := by
  have of_size (hs : s.compilation.instructions.size ≤ s'.compilation.instructions.size) :
      s.compilation.ip ≤ s'.compilation.ip := by
    rw [Compilation.ip_eq, Compilation.ip_eq]
    exact Nat.sub_le_sub_right hs 1
  refine of_size ?_
  cases command with
  | emit op =>
    obtain ⟨r, hr, hs⟩ := Step.exists_of_bind_pure h.act
    rw [Compilation.result_emit] at hr
    cases hr
    cases hs
    have hpush : (s.compilation.instructions.push op).size = s.compilation.instructions.size + 1 :=
      Array.size_push op
    exact hpush ▸ Nat.le_succ _
  | patch ip op =>
    have hact := h.act
    rw [Session.act, Compilation.patch?] at hact
    by_cases hi : ip < s.compilation.instructions.size
    · -- an instruction is replaced in its place
      rw [if_pos hi] at hact
      cases hact
      exact Nat.le_of_eq Array.size_setIfInBounds.symm
    · rw [if_neg hi] at hact
      cases hact
      exact Nat.le_refl _
  | _ =>
    have hinstructions : s'.compilation.instructions = s.compilation.instructions :=
      h.keeps .instructions (by simp [Command.writes])
    exact Nat.le_of_eq (congrArg Array.size hinstructions.symm)

/-- A block that a step closes is the innermost one, ended where the instruction pointer is. -/
theorem Performs.closed {closing : String} {b : Block}
    (h : Performs f s (.leaveBlockBy closing) (.block b) s') :
    ∃ top rest, s.compilation.position.blocks.blocks = top :: rest ∧
      b = { top with stop := some s.compilation.ip } ∧
      s'.compilation.position.blocks = ⟨rest⟩ := by
  obtain ⟨r, hr, hs⟩ := Step.exists_of_bind_pure h.act
  rcases Compilation.leaveBlockBy_eq_ok_iff.mp hr with
    ⟨cause, -, rfl⟩ | ⟨top, rest, -, hb, rfl⟩
  · cases hs
  · cases hs
    exact ⟨top, rest, hb, rfl, rfl⟩

/-- **The invariant of the blocks**: those that are open are in order, and so are those of every
position that the session may come back to. -/
structure Ranged (s : Session ω) : Prop where
  current : s.compilation.position.blocks.OpenAt s.compilation.ip
  kept : ∀ name p, s.kept.get? name = some p → p.blocks.OpenAt s.compilation.ip

theorem Ranged.step (h : Ranged s) (hs : Performs f s command reply s') : Ranged s' := by
  have hle := hs.ip_le
  refine ⟨?_, fun name p hk => ?_⟩
  · -- three commands write the blocks, and the last of them brings back blocks from before
    cases command with
    | enterBlock kind =>
      obtain ⟨r, hr, hs⟩ := Step.exists_of_bind_pure hs.act
      rw [Compilation.result_enterBlock] at hr
      cases hr
      cases hs
      exact h.current.enter kind
    | leaveBlockBy closing =>
      obtain ⟨r, hr, hs⟩ := Step.exists_of_bind_pure hs.act
      rcases Compilation.leaveBlockBy_eq_ok_iff.mp hr with
        ⟨cause, -, rfl⟩ | ⟨top, rest, -, hb, rfl⟩
      · cases hs
        exact h.current
      · cases hs
        exact (h.current.leave hb).1
    | returnTo name =>
      rcases hk : s.kept.get? name with _ | p
      · replace hs := hs.act
        rw [Session.act, hk] at hs
        cases hs
        exact h.current
      · rw [performs_returnTo hk |>.unique hs]
        exact h.kept name p hk
    | _ =>
      have hblocks : s'.compilation.position.blocks = s.compilation.position.blocks :=
        hs.keeps .blocks (by simp [Command.writes])
      rw [hblocks]
      exact h.current.mono hle
  · -- a position kept now was kept before or is the current one
    rcases hs.kept_before hk with hk | rfl
    · exact (h.kept name p hk).mono hle
    · exact h.current.mono hle

theorem ranged_of_reached (h : Reached f settings events s) : Ranged s := by
  refine h.induction (P := fun _ s => Ranged s) ?_ ?_
  · -- no block is open yet, and no position has been kept
    intro reporter c hc
    obtain ⟨arena, -, rfl⟩ := Compilation.create_eq_ok_iff.mp hc
    refine ⟨.empty, fun name p hk => ?_⟩
    cases hk
  · intro events s command reply s' _ ih hs
    exact ih.step hs

/-- **Blocks have ranges.** Whatever the history of a session, detours included, the blocks that are
open start one after the other, none later than the current instruction, and none has an end. A block
that is closed ends at the current instruction, where it does not start later, and starts no earlier
than the blocks that are still open around it. -/
theorem blocks_in_range (h : Reached f settings events s) :
    (s.compilation.position.blocks.outermostFirst.Pairwise
        fun outer inner => outer.start ≤ inner.start) ∧
      (∀ b ∈ s.compilation.position.blocks.outermostFirst,
        b.start ≤ s.compilation.ip ∧ b.stop = none) ∧
      ∀ closing b s', Performs f s (.leaveBlockBy closing) (.block b) s' →
        b.start ≤ s.compilation.ip ∧ b.stop = some s.compilation.ip ∧
          ∀ outer ∈ s'.compilation.position.blocks.outermostFirst, outer.start ≤ b.start := by
  have hcurrent := (ranged_of_reached h).current
  refine ⟨hcurrent.starts_sorted, fun b hb => ⟨hcurrent.start_le b hb, hcurrent.stop_eq b hb⟩, ?_⟩
  intro closing b s' hs
  obtain ⟨top, rest, hb, rfl, hrest⟩ := hs.closed
  obtain ⟨-, hle, houter⟩ := hcurrent.leave hb
  rw [hrest]
  exact ⟨hle, rfl, houter⟩

/-- The body of a loop is closed on a detour, which emits code of its own, and is open again when the
detour is over. -/
def reopened : List (Command Demo.Instruction) :=
  [.emit .conditional, .enterBlock .conditional, .emit (.push 1), .enterBlock .whileLoop,
    .keepPosition "body", .leaveBlockBy "end", .emit (.push 2), .emit .stop, .returnTo "body"]

/-- The loop ends past the code of the detour, and did not begin before the conditional around it. -/
theorem loop_ends_past_detour :
    ∃ c b s', Compilation.create .default (.create .collect false) = .ok c ∧
      Performs .off ((start c).play .off reopened).2 (.leaveBlockBy "end") (.block b) s' ∧
      b.start ≤ 3 ∧ b.stop = some 3 ∧
      ∀ outer ∈ s'.compilation.position.blocks.outermostFirst, outer.start ≤ b.start := by
  have hr : Reached .off .default _ _ :=
    ⟨.create .collect false, _, rfl, run_play .off (start _) reopened⟩
  obtain ⟨-, -, hclosed⟩ := blocks_in_range hr
  obtain ⟨hstart, hstop, houter⟩ := hclosed "end" ⟨.whileLoop, 1, some 3⟩ _ rfl
  exact ⟨_, _, _, rfl, rfl, hstart, hstop, houter⟩

end Session

end StackFront
