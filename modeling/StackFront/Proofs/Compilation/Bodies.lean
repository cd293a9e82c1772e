import StackFront.Demo.Instruction
import StackFront.Proofs.Compilation.Ranges
import StackFront.Proofs.Compilation.Stability

/-!
# The body of a procedure leads back to it

A parser that comes to the end of a body holds nothing but the block that it has just closed. The
procedure is found by way of the instruction at which the block started, and that instruction was
made to define the procedure only after the block had been opened. So three things have to be in
place when the block is closed, each by itself: the block must be the one that was opened, the
instruction must be the one that was written, and the procedure must still have been defined there.

In between anything may happen that a body can contain. Blocks are opened and closed, procedures are
defined in the body of the procedure, and detours lead to a different nesting of blocks altogether.
What is asked of a body is that it stays inside (`StaysInside`): it closes what it has opened, comes
back to positions that it has kept itself, and does not write the instruction again.

The block is a matter of positions. Below what the body has opened there are the blocks that it
found, now and in every position that it has kept (`Inside`), so that it does not come back to
anything else. The instruction and the procedure are no part of a position and stay on any path.

* `AtBody` says that the three things are in place, for the body that is innermost.
* `atBody_of_begun`, `AtBody.run` and `AtBody.close` say that this is so where a body begins, that
  it is so again where the blocks of the body are closed, and what comes of it.
* `body_finds_procedure` is the result.
-/

namespace StackFront

variable {ω : Type}

/-! ### What a body may do -/

/-- Whether an event has closed a block. -/
def Event.closes (e : Event ω) : Bool :=
  match e.command, e.reply with
  | .leaveBlockBy _, .block _ => true
  | _, _ => false

/-- The name of the position that an event has come back to, if it has. -/
def Event.restores? (e : Event ω) : Option String :=
  match e.command, e.reply with
  | .returnTo name, .done => some name
  | _, _ => none

/-- The instruction that a command is to write again. -/
def Command.patches? : Command ω → Option Nat
  | .patch ip _ => some ip
  | _ => none

/-- How many blocks are open. -/
def Session.depth (s : Session ω) : Nat := s.compilation.position.blocks.depth

/-- **Events that stay inside a body** that began at a depth, with an instruction. -/
structure StaysInside (depth ip : Nat) (events : List (Event ω)) : Prop where
  /-- A block that is closed has been opened in the body: there are more blocks open than the body
  began with. -/
  closes_own : ∀ e ∈ events, e.closes = true → depth < e.before.depth
  /-- A position that is come back to has been kept in the body. -/
  restores_own : ∀ n (hn : n < events.length), ∀ name ∈ events[n].restores?,
    ∃ e ∈ events.take n, e.command.keeps? = some name
  writes_elsewhere : ∀ e ∈ events, e.command.patches? ≠ some ip

theorem StaysInside.of_append {depth ip : Nat} {events : List (Event ω)} {e : Event ω}
    (h : StaysInside depth ip (events ++ [e])) : StaysInside depth ip events where
  closes_own := fun e he => h.closes_own e (List.mem_append_left _ he)
  restores_own := fun n hn name hname => by
    have hn' : n < (events ++ [e]).length := by
      rw [List.length_append]
      exact Nat.lt_add_right _ hn
    have htake : (events ++ [e]).take n = events.take n :=
      List.take_append_of_le_length (Nat.le_of_lt hn)
    rw [← htake]
    refine h.restores_own n hn' name ?_
    rw [List.getElem_append_left hn]
    exact hname
  writes_elsewhere := fun e he => h.writes_elsewhere e (List.mem_append_left _ he)

theorem StaysInside.closes_last {depth ip : Nat} {events : List (Event ω)} {e : Event ω}
    (h : StaysInside depth ip (events ++ [e])) (hc : e.closes = true) : depth < e.before.depth :=
  h.closes_own e (List.mem_append_right _ (List.mem_singleton_self e)) hc

/-- The last event of a body comes back to what the events before it have kept. -/
theorem StaysInside.restores_last {depth ip : Nat} {events : List (Event ω)} {e : Event ω}
    (h : StaysInside depth ip (events ++ [e])) (name : String) (hname : name ∈ e.restores?) :
    ∃ e ∈ events, e.command.keeps? = some name := by
  have hlt : events.length < (events ++ [e]).length := by
    rw [List.length_append]
    exact Nat.lt_add_one _
  have hrestores := h.restores_own events.length hlt name
  rw [List.getElem_concat_length rfl, List.take_left] at hrestores
  exact hrestores hname

/-- Where there is an instruction, there is a current one. -/
theorem Compilation.ip?_of_instruction? {c : Compilation ω} {ip : Nat} {op : ω}
    (h : c.instruction? ip = some op) : c.ip? = some c.ip := by
  have hlt : ip < c.instructions.size := (Array.getElem?_eq_some_iff.mp h).1
  have hne : c.instructions.isEmpty = false := by
    rw [Array.isEmpty_eq_false_iff]
    rintro hempty
    rw [hempty] at hlt
    exact absurd hlt (Nat.not_lt_zero ip)
  rw [Compilation.ip, Compilation.ip?, hne]
  rfl

/-- A block leads to the procedure that the instruction at its start defines. -/
theorem Compilation.procedureOf_of_instruction? [Opcode ω] {c : Compilation ω} {b : Block} {op : ω}
    {id : ProcId} (h : c.instruction? b.start = some op) (hop : Opcode.procedure? op = some id) :
    c.procedureOf b = .ok id := by
  rw [procedureOf, h, Option.bind_some, hop]

namespace Session

variable [Opcode ω] {f : Log.Filter} {s s' s₀ : Session ω} {command : Command ω} {reply : Reply}
  {events : List (Event ω)} {ip : Nat} {id : ProcId} {op : ω}

/-! ### The blocks around a body -/

/-- **The invariant of the blocks**: those that were open before are open below all others, and so
they are in the positions that have been kept since. -/
structure Inside (outer : List Block) (events : List (Event ω)) (s : Session ω) : Prop where
  current : outer <:+ s.compilation.position.blocks.blocks
  kept : ∀ e ∈ events, ∀ name, e.command.keeps? = some name →
    ∀ p, s.kept.get? name = some p → outer <:+ p.blocks.blocks

theorem Inside.step {outer : List Block} (h : Inside outer events s)
    (hs : Performs f s command reply s')
    (hcloses : Event.closes ⟨s, command, reply⟩ = true → outer.length < s.depth)
    (hrestores : ∀ name ∈ Event.restores? ⟨s, command, reply⟩,
      ∃ e ∈ events, e.command.keeps? = some name) :
    Inside outer (events ++ [⟨s, command, reply⟩]) s' := by
  refine ⟨?_, ?_⟩
  · -- three commands write the blocks
    cases command with
    | enterBlock kind =>
      obtain ⟨r, hr, hs⟩ := Step.exists_of_bind_pure hs.act
      rw [Compilation.result_enterBlock] at hr
      cases hr
      cases hs
      exact h.current.trans (List.suffix_cons _ _)
    | leaveBlockBy closing =>
      obtain ⟨r, hr, hs⟩ := Step.exists_of_bind_pure hs.act
      rcases Compilation.leaveBlockBy_eq_ok_iff.mp hr with
        ⟨cause, -, rfl⟩ | ⟨top, rest, -, hb, rfl⟩
      · cases hs
        exact h.current
      · cases hs
        -- there are more blocks than those around the body, so that the innermost is none of them
        have hlt := hcloses rfl
        rw [depth, Nesting.depth, hb] at hlt
        have hsuffix := h.current
        rw [hb] at hsuffix
        rcases List.suffix_cons_iff.mp hsuffix with rfl | hrest
        · exact absurd hlt (Nat.lt_irrefl _)
        · exact hrest
    | returnTo name =>
      rcases hk : s.kept.get? name with _ | p
      · replace hs := hs.act
        rw [Session.act, hk] at hs
        cases hs
        exact h.current
      · have hback := performs_returnTo (f := f) hk
        cases hback.symm.trans hs
        obtain ⟨e, he, hkeeps⟩ := hrestores name rfl
        exact h.kept e he name hkeeps p hk
    | _ =>
      have hblocks : s'.compilation.position.blocks = s.compilation.position.blocks :=
        hs.keeps .blocks (by simp [Command.writes])
      rw [hblocks]
      exact h.current
  · intro e he name hkeeps p hp
    rcases List.mem_append.mp he with he | he
    · rcases hs.kept_before hp with hp | rfl
      · exact h.kept e he name hkeeps p hp
      · exact h.current
    · -- what is kept just now is the position that the command has met
      obtain rfl := List.mem_singleton.mp he
      have hp' := (hs.get?_of_keeps hkeeps).1
      obtain rfl := Option.some.inj (hp.symm.trans hp')
      exact h.current

theorem inside_of_run (h : Run f s₀ events s) (hstays : StaysInside s₀.depth ip events) :
    Inside s₀.compilation.position.blocks.blocks events s := by
  induction h with
  | start => exact ⟨List.suffix_refl _, fun e he => by cases he⟩
  | step _ hs ih =>
    exact (ih hstays.of_append).step hs hstays.closes_last hstays.restores_last

/-! ### The instruction and the procedure -/

/-- An instruction that is not written again stays. Emitting one more does not write it. -/
theorem Performs.keeps_instruction (h : Performs f s command reply s')
    (hi : s.compilation.instruction? ip = some op) (hw : command.patches? ≠ some ip) :
    s'.compilation.instruction? ip = some op := by
  have hlt : ip < s.compilation.instructions.size := (Array.getElem?_eq_some_iff.mp hi).1
  have hwrites := h.writes
  rw [h.instruction?_eq, hi]
  generalize s'.compilation.instructions = instructions at hwrites
  have hnone : Event.written? ⟨s, command, reply⟩ ip = none := by
    cases hwrites with
    | emitted => exact if_neg (Nat.ne_of_gt hlt)
    | patched => exact if_neg fun hn => hw (congrArg some hn)
    | unchanged _ hnone => exact hnone ip
  rw [hnone]
  rfl

theorem Run.keeps_instruction (h : Run f s events s')
    (hi : s.compilation.instruction? ip = some op)
    (hw : ∀ e ∈ events, e.command.patches? ≠ some ip) :
    s'.compilation.instruction? ip = some op := by
  induction h with
  | start => exact hi
  | step _ hs ih =>
    refine hs.keeps_instruction (ih fun e he => hw e (List.mem_append_left _ he)) ?_
    exact hw _ (List.mem_append_right _ (List.mem_singleton_self _))

theorem Run.keeps_procedure {d : ProcId × ProcedureDef} (h : Run f s events s')
    (hp : s.compilation.procs.head? id = some d) : s'.compilation.procs.head? id = some d := by
  induction h with
  | start => exact hp
  | step _ hs ih => exact hs.keeps_procedure ih

/-! ### Bodies -/

/-- **The body of a procedure is innermost**: its block has been opened at an instruction that
defines the procedure, and the procedure has been defined there. -/
structure AtBody (s : Session ω) (ip : Nat) (id : ProcId) : Prop where
  block : ∃ outer, s.compilation.position.blocks.blocks = ⟨.procedure, ip, none⟩ :: outer
  instruction : ∃ op, s.compilation.instruction? ip = some op ∧ Opcode.procedure? op = some id
  procedure : ∃ d, s.compilation.procs.head? id = some (id, d) ∧ d.ip = ip

theorem Performs.ip_eq_of_emit (h : Performs f s (.emit op) (.index ip) s') :
    s'.compilation.ip = ip := by
  obtain ⟨r, hr, hs⟩ := Step.exists_of_bind_pure h.act
  rw [Compilation.result_emit] at hr
  cases hr
  cases hs
  rw [Compilation.ip_eq]
  change (s.compilation.instructions.push op).size - 1 = s.compilation.instructions.size
  rw [Array.size_push]
  exact Nat.add_sub_cancel _ 1

/-- A block that a step opens is innermost, and starts where the instruction pointer is. -/
theorem Performs.opened {kind : BlockKind} {b : Block}
    (h : Performs f s (.enterBlock kind) (.block b) s') :
    b = ⟨kind, s.compilation.ip, none⟩ ∧
      s'.compilation.position.blocks = ⟨b :: s.compilation.position.blocks.blocks⟩ := by
  obtain ⟨r, hr, hs⟩ := Step.exists_of_bind_pure h.act
  rw [Compilation.result_enterBlock] at hr
  cases hr
  cases hs
  exact ⟨rfl, rfl⟩

/-- A procedure that a step defines has the signature that it was defined with. -/
theorem Performs.head?_declared {t : Token} {inputs outputs : List ValueType} {b : Block}
    (h : Performs f s (.declareProcedure t inputs outputs b) (.procedure id) s') :
    s'.compilation.procs.head? id =
      some (id, s.compilation.signature t.text inputs outputs b) := by
  have hdefines := h.defines
  generalize s'.compilation = c' at hdefines ⊢
  cases hdefines with
  | nothing vain =>
    obtain ⟨e, he⟩ := vain rfl
    cases he
  | procedure accepted commits => exact (commits.procs_head?_eq _).trans (if_pos rfl)

/-- An innermost block that a closing word may end is closed by it. -/
theorem performs_leaveBlockBy {closing : String} {top : Block} {rest : List Block}
    (hb : s.compilation.position.blocks.blocks = top :: rest)
    (hc : top.kind.endedBy closing = true) :
    Performs f s (.leaveBlockBy closing) (.block { top with stop := some s.compilation.ip })
      ⟨{ s.compilation with position.blocks := ⟨rest⟩ }, s.kept⟩ := by
  have hrefusal : s.compilation.position.blocks.refusal closing = none := by
    rw [Nesting.refusal, Nesting.innermost?, hb]
    exact if_pos hc
  have hleave := (Compilation.leaveBlockBy_eq_ok_iff (f := f)).mpr
    (.inr ⟨top, rest, hrefusal, hb, rfl⟩)
  refine performs_of_act (fun _ => by simp) ?_
  rw [Session.act, Step.result_bind, hleave]
  rfl

/-- **A body begins** when a procedure has been defined with the block that was opened at an
instruction, and the instruction has been made to define it. -/
theorem atBody_of_begun {s₁ s₂ s₃ s₄ : Session ω} {op op' : ω} {b : Block} {t : Token}
    {inputs outputs : List ValueType} (hemit : Performs f s (.emit op) (.index ip) s₁)
    (henter : Performs f s₁ (.enterBlock .procedure) (.block b) s₂)
    (hdeclare : Performs f s₂ (.declareProcedure t inputs outputs b) (.procedure id) s₃)
    (hpatch : Performs f s₃ (.patch ip op') .done s₄) (hop : Opcode.procedure? op' = some id) :
    AtBody s₄ ip id := by
  -- the block starts at the instruction that was emitted last
  obtain ⟨hb, hblocks₂⟩ := henter.opened
  rw [hemit.ip_eq_of_emit] at hb
  have hblocks₃ : s₃.compilation.position.blocks = s₂.compilation.position.blocks :=
    hdeclare.keeps .blocks (by simp [Command.writes])
  have hblocks₄ : s₄.compilation.position.blocks = s₃.compilation.position.blocks :=
    hpatch.keeps .blocks (by simp [Command.writes])
  refine ⟨⟨s₁.compilation.position.blocks.blocks, ?_⟩, ⟨op', ?_, hop⟩, ?_⟩
  · rw [hblocks₄, hblocks₃, hblocks₂, hb]
  · rw [hpatch.instruction?_eq]
    exact congrArg (Option.or · _) (if_pos rfl)
  · refine ⟨_, hpatch.keeps_procedure hdeclare.head?_declared, ?_⟩
    exact congrArg Block.start hb

/-- **Where events have stayed inside** the body and have closed their blocks, it is innermost
again. -/
theorem AtBody.run (h : AtBody s ip id) (hbody : Run f s events s')
    (hstays : StaysInside s.depth ip events) (hclosed : s'.depth = s.depth) : AtBody s' ip id := by
  obtain ⟨⟨outer, hblocks⟩, ⟨op, hi, hop⟩, d, hd, hip⟩ := h
  refine ⟨⟨outer, ?_⟩, ⟨op, hbody.keeps_instruction hi hstays.writes_elsewhere, hop⟩,
    d, hbody.keeps_procedure hd, hip⟩
  -- the blocks around are below the others, and there are no others
  have hsuffix := (inside_of_run hbody hstays).current
  rw [← hblocks]
  exact (hsuffix.eq_of_length hclosed.symm).symm

/-- **The block of a body** can be closed, and leads to the procedure. -/
theorem AtBody.close (h : AtBody s ip id) (f : Log.Filter) :
    ∃ b s', Performs f s (.leaveBlockBy "end") (.block b) s' ∧ b.kind = .procedure ∧ b.start = ip ∧
      b.stop = s.compilation.ip? ∧ s'.compilation.procedureOf b = .ok id ∧
      ∃ p, s'.compilation.procs.get id = .ok p ∧ p.ip = ip := by
  obtain ⟨⟨outer, hblocks⟩, ⟨op, hi, hop⟩, d, hd, hip⟩ := h
  obtain ⟨p, hp, hhead⟩ := Procedures.exists_of_head? hd
  refine ⟨_, _, performs_leaveBlockBy hblocks rfl, rfl, rfl,
    (Compilation.ip?_of_instruction? hi).symm, ?_, p, hp, ?_⟩
  · exact Compilation.procedureOf_of_instruction? hi hop
  · rw [← hip]
    exact congrArg (·.2.ip) hhead

/-- **The body of a procedure leads back to it.** Let a procedure be begun in any session: an
instruction is emitted, a block is opened, the procedure is defined with the block, and the
instruction is made to define the procedure. Let any events follow that stay inside the body and
close the blocks that they open. Then the block can be closed. It is the one that was opened, ends
at the current instruction, and leads to the procedure, which begins where the block does. -/
theorem body_finds_procedure {s₁ s₂ s₃ s₄ s₅ : Session ω} {op op' : ω} {b : Block} {t : Token}
    {inputs outputs : List ValueType} {body : List (Event ω)}
    (hemit : Performs f s (.emit op) (.index ip) s₁)
    (henter : Performs f s₁ (.enterBlock .procedure) (.block b) s₂)
    (hdeclare : Performs f s₂ (.declareProcedure t inputs outputs b) (.procedure id) s₃)
    (hpatch : Performs f s₃ (.patch ip op') .done s₄) (hop : Opcode.procedure? op' = some id)
    (hbody : Run f s₄ body s₅) (hstays : StaysInside s₄.depth ip body)
    (hclosed : s₅.depth = s₄.depth) :
    ∃ b' s₆, Performs f s₅ (.leaveBlockBy "end") (.block b') s₆ ∧ b'.kind = .procedure ∧
      b'.start = ip ∧ b'.stop = s₅.compilation.ip? ∧ s₆.compilation.procedureOf b' = .ok id ∧
      ∃ p, s₆.compilation.procs.get id = .ok p ∧ p.ip = ip := by
  have hbegun : AtBody s₄ ip id := atBody_of_begun hemit henter hdeclare hpatch hop
  have hended : AtBody s₅ ip id := hbegun.run hbody hstays hclosed
  exact hended.close f

/-- A procedure is begun. -/
def hosting : List (Command Demo.Instruction) :=
  [.emit (.procedure none), .enterBlock .procedure,
    .declareProcedure ⟨"host", .unknown⟩ [] [] ⟨.procedure, 0, none⟩,
    .patch 0 (.procedure (some ⟨0⟩))]

/-- In a conditional of the body a detour sets out that begins a procedure of its own, and leaves it
open. The conditional is closed when the detour is over. -/
def visiting : List (Command Demo.Instruction) :=
  [.emit .conditional, .enterBlock .conditional, .keepPosition "body", .emit (.procedure none),
    .enterBlock .procedure, .declareProcedure ⟨"guest", .unknown⟩ [] [] ⟨.procedure, 2, none⟩,
    .patch 2 (.procedure (some ⟨1⟩)), .returnTo "body", .leaveBlockBy "end"]

/-- The block that is closed afterwards is that of the host, and goes on past the instruction of the
guest. -/
theorem host_found_behind_guest :
    ∃ c b s', Compilation.create .default (.create .collect false) = .ok c ∧
      Performs .off (((start c).play .off hosting).2.play .off visiting).2 (.leaveBlockBy "end")
        (.block b) s' ∧
      b = ⟨.procedure, 0, some 2⟩ ∧ s'.compilation.procedureOf b = .ok ⟨0⟩ := by
  obtain ⟨c, hc⟩ : ∃ c : Compilation Demo.Instruction,
      Compilation.create .default (.create .collect false) = .ok c := ⟨_, rfl⟩
  have hemit : Performs .off (start c) (.emit (Demo.Instruction.procedure none)) (.index 0)
      ((start c).play .off (hosting.take 1)).2 := by
    cases hc
    rfl
  have henter : Performs .off ((start c).play .off (hosting.take 1)).2 (.enterBlock .procedure)
      (.block ⟨.procedure, 0, none⟩) ((start c).play .off (hosting.take 2)).2 := by
    cases hc
    rfl
  have hdeclare : Performs .off ((start c).play .off (hosting.take 2)).2
      (.declareProcedure ⟨"host", .unknown⟩ [] [] ⟨.procedure, 0, none⟩) (.procedure ⟨0⟩)
      ((start c).play .off (hosting.take 3)).2 := by
    cases hc
    rfl
  have hpatch : Performs .off ((start c).play .off (hosting.take 3)).2
      (.patch 0 (.procedure (some ⟨0⟩))) .done ((start c).play .off hosting).2 := by
    cases hc
    rfl
  have hstays : StaysInside ((start c).play .off hosting).2.depth 0
      (((start c).play .off hosting).2.play .off visiting).1 := by
    cases hc
    exact ⟨by decide, by decide, by decide⟩
  obtain ⟨⟨kind, first, stop⟩, s', hclose, hkind, hstart, hstop, hfound, -⟩ := body_finds_procedure
    hemit henter hdeclare hpatch rfl (run_play .off _ visiting) hstays (by cases hc; rfl)
  obtain rfl : kind = .procedure := hkind
  obtain rfl : first = 0 := hstart
  obtain rfl : stop = some 2 := by
    cases hc
    exact hstop
  exact ⟨c, _, s', hc, hclose, rfl, hfound⟩

end Session

end StackFront
