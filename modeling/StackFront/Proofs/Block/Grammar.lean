import Mathlib.Data.List.Induction
import StackFront.Block.Nesting

/-!
# Which words nest

A stack of blocks is driven by two kinds of calls, those that open a block and those that close the
innermost one by a closing word. Calls can fail, and a call that fails changes nothing. The calls of
a history that succeed make up a word over the two kinds of letters, and here the stack is compared
with the grammar of well-nested words,

  `S → ε | S enter(kind, i) S leaveBy(closing, j)`,

in which the closing word is `end`, or `else` where the block is a conditional.

The grammar says which open a close matches: the one that is followed, up to the close, by a
well-nested word. The stack knows nothing of the word. It has to be shown that its topmost block is
always the one that the next close matches.

* `WellNested` is the grammar, `Matches` is its notion of matching, and `unmatched` the blocks of the
  opens that no close matches.
* `LeavesOpen` cuts a word into well-nested ones, at the opens without a match. It is what a run keeps
  (`exists_callAll`), and it settles what is matched and what is not.
* `nests_exactly` is the result.
-/

namespace StackFront

namespace Nesting

/-- **A call** on a stack of blocks, at an instruction. -/
inductive Call where
  | enter (kind : BlockKind) (ip : Nat)
  | leaveBy (closing : String) (ip : Nat)

/-- A call with the answer to it. -/
structure Turn where
  call : Call
  answer : Except Cause Block

/-- **Carries out a call.** Where it fails the nesting stays as it is. -/
def call (n : Nesting) : Call → Step (Except Cause Block × Nesting)
  | .enter kind ip => do
    let (block, n) ← n.enter kind ip
    return (.ok block, n)
  | .leaveBy closing ip => do
    match ← n.leaveBy closing ip with
    | .ok (block, n) => return (.ok block, n)
    | .error cause => return (.error cause, n)

/-- Carries out calls one after the other, those after a failure included. -/
def callAll (n : Nesting) (calls : List Call) : Step (List Turn × Nesting) :=
  calls.foldlM (fun p c => do
    let (answer, n) ← p.2.call c
    return (p.1 ++ [⟨c, answer⟩], n)) ([], n)

/-- **The word of a history**: the calls that have succeeded. -/
def succeeded (turns : List Turn) : List Call :=
  turns.filterMap fun t => if t.answer.isOk then some t.call else none

/-! ### The grammar -/

/-- **The well-nested words.** -/
inductive WellNested : List Call → Prop
  | empty : WellNested []
  | block {before inside : List Call} {kind : BlockKind} {i : Nat} {closing : String} {j : Nat}
      (before_nested : WellNested before) (inside_nested : WellNested inside)
      (ends : closing = "end" ∨ (closing = "else" ∧ kind = .conditional)) :
      WellNested (before ++ .enter kind i :: inside ++ [.leaveBy closing j])

/-- **The open that a close matches** which comes after a word: from there on the word is
well-nested. -/
def Matches (w : List Call) (kind : BlockKind) (start : Nat) : Prop :=
  ∃ before inside, w = before ++ .enter kind start :: inside ∧ WellNested inside

/-- In what comes after an open there is the close that matches it. -/
def HasMatch (w : List Call) : Prop :=
  ∃ inside closing ip rest, w = inside ++ .leaveBy closing ip :: rest ∧ WellNested inside

open Classical in
/-- **The blocks of the opens that no close matches**, in the order of the word, each without an
end. -/
noncomputable def unmatched : List Call → List Block
  | [] => []
  | .enter kind ip :: w => if HasMatch w then unmatched w else ⟨kind, ip, none⟩ :: unmatched w
  | .leaveBy _ _ :: w => unmatched w

/-! ### Words that can be taken -/

/-- The nesting after a call that succeeds. -/
def take? (n : Nesting) : Call → Option Nesting
  | .enter kind ip => some ⟨⟨kind, ip, none⟩ :: n.blocks⟩
  | .leaveBy closing _ => if n.refusal closing = none then some ⟨n.blocks.tail⟩ else none

/-- The nesting after a word, all of whose calls succeed. -/
def takeAll? (n : Nesting) (w : List Call) : Option Nesting := w.foldlM take? n

variable {n n' : Nesting} {w v : List Call} {c : Call} {kind : BlockKind} {ip start : Nat}
  {closing : String} {b top : Block} {bs rest : List Block} {f : Log.Filter} {turns : List Turn}
  {answer : Except Cause Block}

theorem takeAll?_append (n : Nesting) (w v : List Call) :
    n.takeAll? (w ++ v) = (n.takeAll? w).bind (·.takeAll? v) :=
  List.foldlM_append

theorem takeAll?_cons (n : Nesting) (c : Call) (w : List Call) :
    n.takeAll? (c :: w) = (n.take? c).bind (·.takeAll? w) :=
  List.foldlM_cons

theorem takeAll?_enter (n : Nesting) (kind : BlockKind) (ip : Nat) (w : List Call) :
    n.takeAll? (.enter kind ip :: w) = takeAll? ⟨⟨kind, ip, none⟩ :: n.blocks⟩ w :=
  takeAll?_cons n (.enter kind ip) w

theorem takeAll?_singleton (n : Nesting) (c : Call) : n.takeAll? [c] = n.take? c :=
  (takeAll?_cons n c []).trans (Option.bind_fun_some _)

theorem refusal_cons (top : Block) (rest : List Block) (closing : String) :
    refusal ⟨top :: rest⟩ closing =
      if top.kind.endedBy closing then none else some (.blockMismatch closing top.kind) :=
  rfl

theorem take?_leaveBy_of_endedBy (h : top.kind.endedBy closing = true) (ip : Nat) :
    take? ⟨top :: rest⟩ (.leaveBy closing ip) = some ⟨rest⟩ := by
  rw [take?, refusal_cons, if_pos h, if_pos rfl]
  rfl

/-- **A well-nested word** can be taken anywhere, and leads back to where it began. -/
theorem WellNested.takeAll?_eq (h : WellNested w) (n : Nesting) : n.takeAll? w = some n := by
  induction h generalizing n with
  | empty => rfl
  | @block before inside kind i closing j _ _ ends before_ih inside_ih =>
    have hends : kind.endedBy closing = true := BlockKind.endedBy_iff.mpr ends
    calc n.takeAll? (before ++ .enter kind i :: inside ++ [.leaveBy closing j])
        = (n.takeAll? (.enter kind i :: inside)).bind (·.takeAll? [.leaveBy closing j]) := by
          rw [takeAll?_append, takeAll?_append, before_ih, Option.bind_some]
      _ = takeAll? ⟨⟨kind, i, none⟩ :: n.blocks⟩ [.leaveBy closing j] := by
          rw [takeAll?_enter, inside_ih, Option.bind_some]
      _ = some n := by
          rw [takeAll?_cons, take?_leaveBy_of_endedBy hends]
          rfl

/-- An empty nesting takes no close. -/
theorem takeAll?_empty_leaveBy (closing : String) (ip : Nat) (w : List Call) :
    empty.takeAll? (.leaveBy closing ip :: w) = none :=
  takeAll?_cons empty (.leaveBy closing ip) w

/-- What can be taken with nothing open does not close anything that was opened before it. -/
theorem not_hasMatch_of_takeAll? (h : empty.takeAll? w = some n) : ¬ HasMatch w := by
  rintro ⟨inside, closing, ip, rest, rfl, hinside⟩
  rw [takeAll?_append, hinside.takeAll?_eq, Option.bind_some, takeAll?_empty_leaveBy] at h
  cases h

/-- **The topmost block** is the one that the next close matches. -/
theorem head?_of_matches (h : empty.takeAll? w = some n) (hm : Matches w kind start) :
    n.blocks.head? = some ⟨kind, start, none⟩ := by
  obtain ⟨before, inside, rfl, hinside⟩ := hm
  rw [takeAll?_append] at h
  obtain ⟨m, -, hm⟩ := Option.bind_eq_some_iff.mp h
  rw [takeAll?_enter, hinside.takeAll?_eq] at hm
  obtain rfl := Option.some.inj hm
  rfl

/-! ### Words that leave blocks open -/

/-- A well-nested word has no open that is not matched, whatever comes after it. -/
theorem WellNested.unmatched_append (h : WellNested v) (w : List Call) :
    unmatched (v ++ w) = unmatched w := by
  induction h generalizing w with
  | empty => rfl
  | @block before inside kind i closing j _ inside_nested ends before_ih inside_ih =>
    have hmatch : HasMatch (inside ++ .leaveBy closing j :: w) :=
      ⟨inside, closing, j, w, rfl, inside_nested⟩
    calc unmatched (before ++ .enter kind i :: inside ++ [.leaveBy closing j] ++ w)
        = unmatched (before ++ .enter kind i :: (inside ++ .leaveBy closing j :: w)) := by simp
      _ = unmatched (.enter kind i :: (inside ++ .leaveBy closing j :: w)) := before_ih _
      _ = unmatched (inside ++ .leaveBy closing j :: w) := by rw [unmatched, if_pos hmatch]
      _ = unmatched w := by rw [inside_ih, unmatched]

/-- **A word that leaves blocks open**, outermost first: it is cut into well-nested words by their
opens. -/
inductive LeavesOpen : List Call → List Block → Prop
  | nested {w : List Call} (h : WellNested w) : LeavesOpen w []
  | opened {before w : List Call} {kind : BlockKind} {ip : Nat} {bs : List Block}
      (before_nested : WellNested before) (leaves : LeavesOpen w bs) :
      LeavesOpen (before ++ .enter kind ip :: w) (⟨kind, ip, none⟩ :: bs)

namespace LeavesOpen

theorem wellNested (h : LeavesOpen w []) : WellNested w := by
  cases h with
  | nested hw => exact hw

/-- An open at the end is left open. -/
theorem enter (h : LeavesOpen w bs) (kind : BlockKind) (ip : Nat) :
    LeavesOpen (w ++ [.enter kind ip]) (bs ++ [⟨kind, ip, none⟩]) := by
  induction h with
  | nested hw => exact .opened hw (.nested .empty)
  | opened before_nested _ ih =>
    rw [List.append_assoc, List.cons_append]
    exact .opened before_nested ih

/-- **Where the innermost block was opened**: what comes before leaves the others open, and what comes
after is well-nested. -/
theorem exists_innermost (h : LeavesOpen w (bs ++ [b])) :
    ∃ before inside, w = before ++ .enter b.kind b.start :: inside ∧ LeavesOpen before bs ∧
      WellNested inside := by
  generalize hl : bs ++ [b] = l at h
  induction h generalizing bs with
  | nested => exact absurd hl (List.append_ne_nil_of_right_ne_nil _ (List.cons_ne_nil _ _))
  | @opened before w kind start l before_nested leaves ih =>
    rcases bs with _ | ⟨outermost, bs⟩
    · -- with one block open, what comes after its open leaves nothing open
      obtain ⟨rfl, rfl⟩ := List.cons.inj hl
      exact ⟨before, w, rfl, .nested before_nested, leaves.wellNested⟩
    · -- the innermost block lies in what comes after the outermost open
      obtain ⟨rfl, rfl⟩ := List.cons.inj hl
      obtain ⟨before', inside, rfl, hbefore, hinside⟩ := ih rfl
      exact ⟨before ++ .enter kind start :: before', inside, by simp, .opened before_nested hbefore,
        hinside⟩

/-- A whole block at the end leaves open what was. -/
theorem block {inside : List Call} (h : LeavesOpen w bs) (hinside : WellNested inside)
    (hends : kind.endedBy closing = true) (start ip : Nat) :
    LeavesOpen (w ++ .enter kind start :: inside ++ [.leaveBy closing ip]) bs := by
  induction h with
  | nested hw => exact .nested (.block hw hinside (BlockKind.endedBy_iff.mp hends))
  | opened before_nested _ ih =>
    rw [List.append_assoc, List.append_assoc, List.cons_append, ← List.append_assoc]
    exact .opened before_nested ih

/-- A close at the end is that of the innermost block. -/
theorem leaveBy (h : LeavesOpen w (bs ++ [b])) (hends : b.kind.endedBy closing = true) (ip : Nat) :
    LeavesOpen (w ++ [.leaveBy closing ip]) bs := by
  obtain ⟨before, inside, rfl, hbefore, hinside⟩ := h.exists_innermost
  exact hbefore.block hinside hends b.start ip

/-- The next close matches the open of the innermost block. -/
theorem exists_matches (h : LeavesOpen w (bs ++ [b])) : Matches w b.kind b.start := by
  obtain ⟨before, inside, hw, -, hinside⟩ := h.exists_innermost
  exact ⟨before, inside, hw, hinside⟩

/-- It can be taken, and leads to the blocks that it leaves open. -/
theorem takeAll?_eq (h : LeavesOpen w bs) (n : Nesting) :
    n.takeAll? w = some ⟨bs.reverse ++ n.blocks⟩ := by
  induction h generalizing n with
  | nested hw => exact hw.takeAll?_eq n
  | opened before_nested _ ih =>
    rw [takeAll?_append, before_nested.takeAll?_eq, Option.bind_some, takeAll?_enter, ih,
      List.reverse_cons, List.append_assoc]
    rfl

/-- **What it leaves open is not matched**, and the rest is. -/
theorem unmatched_eq (h : LeavesOpen w bs) : unmatched w = bs := by
  induction h with
  | nested hw =>
    have happend := hw.unmatched_append []
    rwa [List.append_nil] at happend
  | opened before_nested leaves ih =>
    have hopen := not_hasMatch_of_takeAll? (leaves.takeAll?_eq empty)
    rw [before_nested.unmatched_append, unmatched, if_neg hopen, ih]

end LeavesOpen

/-! ### Calls and the words that they make up -/

theorem result_call_enter (n : Nesting) (kind : BlockKind) (ip : Nat) :
    ((n.call (.enter kind ip)).run f).result =
      .ok (.ok ⟨kind, ip, none⟩, ⟨⟨kind, ip, none⟩ :: n.blocks⟩) := by
  rw [call, Step.result_bind, result_enter]
  rfl

theorem result_call_of_refusal {cause : Cause} (h : n.refusal closing = some cause) (ip : Nat) :
    ((n.call (.leaveBy closing ip)).run f).result = .ok (.error cause, n) := by
  rw [call, Step.result_bind, result_leaveBy, h]
  rfl

theorem result_call_of_endedBy (h : top.kind.endedBy closing = true) (ip : Nat) :
    ((call ⟨top :: rest⟩ (.leaveBy closing ip)).run f).result =
      .ok (.ok { top with stop := some ip }, ⟨rest⟩) := by
  rw [call, Step.result_bind, result_leaveBy, refusal_cons, if_pos h]
  rfl

theorem refusal_eq_none_iff :
    n.refusal closing = none ↔
      ∃ top rest, n.blocks = top :: rest ∧ top.kind.endedBy closing = true := by
  rcases n with ⟨_ | ⟨top, rest⟩⟩
  · simp [refusal, innermost?]
  · rw [refusal_cons]
    by_cases h : top.kind.endedBy closing = true <;> simp [h]

/-- **A call either succeeds or changes nothing**, and has an answer in any case. -/
theorem exists_call (f : Log.Filter) (n : Nesting) (c : Call) :
    ∃ answer n', ((n.call c).run f).result = .ok (answer, n') ∧
      ((∃ b, answer = .ok b ∧ n.take? c = some n') ∨
        ∃ cause, answer = .error cause ∧ n.take? c = none ∧ n' = n) := by
  cases c with
  | enter kind ip => exact ⟨_, _, result_call_enter n kind ip, .inl ⟨_, rfl, rfl⟩⟩
  | leaveBy closing ip =>
    rcases hr : n.refusal closing with _ | cause
    · obtain ⟨top, rest, hb, hends⟩ := refusal_eq_none_iff.mp hr
      obtain rfl : n = ⟨top :: rest⟩ := by rw [← hb]
      exact ⟨_, _, result_call_of_endedBy hends ip,
        .inl ⟨_, rfl, take?_leaveBy_of_endedBy hends ip⟩⟩
    · refine ⟨_, _, result_call_of_refusal hr ip, .inr ⟨cause, rfl, ?_, rfl⟩⟩
      rw [take?, hr, if_neg (by simp)]

/-- A call that succeeds adds to the word, and to what the word leaves open. -/
theorem LeavesOpen.take? (h : LeavesOpen w n.outermostFirst) (hc : n.take? c = some n') :
    LeavesOpen (w ++ [c]) n'.outermostFirst := by
  cases c with
  | enter kind ip =>
    obtain rfl := Option.some.inj hc
    rw [outermostFirst, List.reverse_cons]
    exact h.enter kind ip
  | leaveBy closing ip =>
    rw [Nesting.take?] at hc
    split at hc
    · next hr =>
      obtain ⟨top, rest, hb, hends⟩ := refusal_eq_none_iff.mp hr
      obtain rfl := Option.some.inj hc
      rw [outermostFirst, hb, List.reverse_cons] at h
      rw [outermostFirst, hb]
      exact h.leaveBy hends ip
    · cases hc

theorem succeeded_append (turns : List Turn) (t : Turn) :
    succeeded (turns ++ [t]) = succeeded turns ++ succeeded [t] :=
  List.filterMap_append

theorem succeeded_eq_map (h : ∀ t ∈ turns, ∃ b, t.answer = .ok b) :
    succeeded turns = turns.map Turn.call := by
  induction turns with
  | nil => rfl
  | cons t turns ih =>
    obtain ⟨b, hb⟩ := h t List.mem_cons_self
    have hrest := ih fun t' ht' => h t' (List.mem_cons_of_mem t ht')
    rw [List.map_cons, ← hrest, succeeded, List.filterMap_cons, hb]
    rfl

/-- One more call is carried out after the others. -/
theorem result_callAll_append {calls : List Call} {m : Nesting}
    (h : ((n.callAll calls).run f).result = .ok (turns, m))
    (hc : ((m.call c).run f).result = .ok (answer, n')) :
    ((n.callAll (calls ++ [c])).run f).result = .ok (turns ++ [⟨c, answer⟩], n') := by
  unfold callAll at h ⊢
  rw [List.foldlM_append, Step.result_bind, h, ok_bind, List.foldlM_cons, Step.result_bind,
    Step.result_bind, hc]
  rfl

/-- **A word that can be taken is taken**: no call of it fails. -/
theorem callAll_of_takeAll? (h : n.takeAll? w = some n') (f : Log.Filter) :
    ∃ turns, ((n.callAll w).run f).result = .ok (turns, n') ∧
      ∀ t ∈ turns, ∃ b, t.answer = .ok b := by
  induction w using List.reverseRecOn generalizing n' with
  | nil =>
    obtain rfl := Option.some.inj h
    exact ⟨[], rfl, by simp⟩
  | append_singleton w c ih =>
    rw [takeAll?_append] at h
    obtain ⟨m, hm, hc⟩ := Option.bind_eq_some_iff.mp h
    rw [takeAll?_singleton] at hc
    obtain ⟨turns, hturns, hok⟩ := ih hm
    obtain ⟨answer, m', hcall, ⟨b, rfl, htake⟩ | ⟨cause, -, htake, -⟩⟩ := exists_call f m c
    · obtain rfl := Option.some.inj (htake.symm.trans hc)
      refine ⟨_, result_callAll_append hturns hcall, fun t ht => ?_⟩
      rcases List.mem_append.mp ht with ht | ht
      · exact hok t ht
      · rw [List.mem_singleton.mp ht]
        exact ⟨b, rfl⟩
    · -- a call that fails cannot be taken
      rw [hc] at htake
      cases htake

/-- **A run leaves open what its word does.** Every call is answered. -/
theorem exists_callAll (f : Log.Filter) (calls : List Call) :
    ∃ turns n, ((empty.callAll calls).run f).result = .ok (turns, n) ∧
      turns.map Turn.call = calls ∧ LeavesOpen (succeeded turns) n.outermostFirst := by
  induction calls using List.reverseRecOn with
  | nil => exact ⟨[], empty, rfl, rfl, .nested .empty⟩
  | append_singleton calls c ih =>
    obtain ⟨turns, n, hrun, rfl, hleaves⟩ := ih
    obtain ⟨answer, n', hcall, hcases⟩ := exists_call f n c
    refine ⟨_, n', result_callAll_append hrun hcall, by simp, ?_⟩
    rw [succeeded_append]
    rcases hcases with ⟨b, rfl, htake⟩ | ⟨cause, rfl, -, rfl⟩
    · exact hleaves.take? htake
    · -- a call that fails adds nothing to the word
      rw [show succeeded [⟨c, .error cause⟩] = [] from rfl, List.append_nil]
      exact hleaves

/-! ### The stack and the grammar -/

/-- **The answer to a close** that comes after a word. It fails in two ways, which change nothing;
otherwise the block that it yields is that of the open which the close matches, ended where the close
is. -/
structure Closes (w : List Call) (n : Nesting) (closing : String) (ip : Nat)
    (answer : Except Cause Block) (n' : Nesting) : Prop where
  unexpectedClose_iff : answer = .error (.unexpectedClose closing) ↔ unmatched w = []
  blockMismatch_iff : ∀ kind, answer = .error (.blockMismatch closing kind) ↔
    ∃ b, (unmatched w).getLast? = some b ∧ b.kind = kind ∧ b.kind.endedBy closing = false
  ok_iff : (∃ b, answer = .ok b) ↔
    ∃ b, (unmatched w).getLast? = some b ∧ b.kind.endedBy closing = true
  eq_of_error : ∀ cause, answer = .error cause → n' = n
  matches_of_ok : ∀ b, answer = .ok b → b.stop = some ip ∧ Matches w b.kind b.start ∧
    ∀ kind start, Matches w kind start → kind = b.kind ∧ start = b.start

namespace LeavesOpen

/-- With nothing open there is nothing to close. -/
theorem closes_nil (h : LeavesOpen w []) (closing : String) (ip : Nat) :
    Closes w empty closing ip (.error (.unexpectedClose closing)) empty := by
  have hnone : unmatched w = [] := h.unmatched_eq
  have hlast : (unmatched w).getLast? = none := by
    rw [hnone]
    rfl
  refine ⟨by simp [hnone], fun kind => ?_, ?_, fun _ _ => rfl, fun b hb => ?_⟩
  · simp [hlast]
  · simp [hlast]
  · cases hb

/-- **The innermost block is closed** if the closing word may end it, and is blamed if not. -/
theorem closes_cons (h : LeavesOpen w (⟨top :: rest⟩ : Nesting).outermostFirst) (closing : String)
    (ip : Nat) :
    if top.kind.endedBy closing then
      Closes w ⟨top :: rest⟩ closing ip (.ok { top with stop := some ip }) ⟨rest⟩
    else
      Closes w ⟨top :: rest⟩ closing ip (.error (.blockMismatch closing top.kind))
        ⟨top :: rest⟩ := by
  have htaken : empty.takeAll? w = some ⟨top :: rest⟩ := by
    rw [h.takeAll?_eq, outermostFirst, List.reverse_reverse]
    exact congrArg (fun bs => some (⟨bs⟩ : Nesting)) (List.append_nil (top :: rest))
  rw [outermostFirst, List.reverse_cons] at h
  have hopen : unmatched w = rest.reverse ++ [top] := h.unmatched_eq
  have hne : unmatched w ≠ [] := by simp [hopen]
  have hlast : (unmatched w).getLast? = some top := by rw [hopen, List.getLast?_concat]
  split
  · next hends =>
    refine ⟨by simp [hne], fun kind => ?_, ?_, fun cause hc => ?_, ?_⟩
    · simp [hlast, hends]
    · simp [hlast, hends]
    · cases hc
    · rintro b hb
      obtain rfl := Except.ok.inj hb
      refine ⟨rfl, h.exists_matches, fun kind start hm => ?_⟩
      -- any open that is matched is that of the topmost block
      have htop : some top = some ⟨kind, start, none⟩ := head?_of_matches htaken hm
      rw [Option.some.inj htop]
      exact ⟨rfl, rfl⟩
  · next hends =>
    have hnot : top.kind.endedBy closing = false := Bool.eq_false_iff.mpr hends
    refine ⟨by simp [hne], fun kind => ?_, ?_, fun _ _ => rfl, fun b hb => ?_⟩
    · simp [hlast, hnot]
    · simp [hlast, hnot]
    · cases hb

/-- A close is answered. -/
theorem exists_closes (h : LeavesOpen w n.outermostFirst) (f : Log.Filter) (closing : String)
    (ip : Nat) :
    ∃ answer n', ((n.call (.leaveBy closing ip)).run f).result = .ok (answer, n') ∧
      Closes w n closing ip answer n' := by
  rcases n with ⟨_ | ⟨top, rest⟩⟩
  · exact ⟨_, _, result_call_of_refusal rfl ip, h.closes_nil closing ip⟩
  · have hcloses := h.closes_cons closing ip
    by_cases hends : top.kind.endedBy closing = true
    · rw [if_pos hends] at hcloses
      exact ⟨_, _, result_call_of_endedBy hends ip, hcloses⟩
    · rw [if_neg hends] at hcloses
      refine ⟨_, _, result_call_of_refusal ?_ ip, hcloses⟩
      rw [refusal_cons, if_neg hends]

end LeavesOpen

/-- **What a history of calls says of the nesting** that it leads to. -/
structure Nests (f : Log.Filter) (turns : List Turn) (n : Nesting) : Prop where
  /-- No call has failed and no block is open if and only if the calls make up a well-nested word. -/
  accepts_iff : ((∀ t ∈ turns, ∃ b, t.answer = .ok b) ∧ n.allEnded = .ok ()) ↔
    WellNested (turns.map Turn.call)
  /-- The blocks that are open are those whose opens no close has matched. -/
  outermostFirst_eq : n.outermostFirst = unmatched (succeeded turns)
  /-- The innermost of them is to blame where none should be open. -/
  allEnded_eq : n.allEnded =
    match (unmatched (succeeded turns)).getLast? with
    | none => .ok ()
    | some b => .error (.unclosedBlock b.kind b.start)
  /-- A call that opens a block succeeds. -/
  enter : ∀ kind ip, ∃ n', ((n.call (.enter kind ip)).run f).result =
    .ok (.ok ⟨kind, ip, none⟩, n')
  leaveBy : ∀ closing ip, ∃ answer n',
    ((n.call (.leaveBy closing ip)).run f).result = .ok (answer, n') ∧
      Closes (succeeded turns) n closing ip answer n'

/-- **The stack accepts exactly the well-nested words.** Of any other history, failures included, it
tells what the grammar says of the calls that have succeeded. -/
theorem nests_exactly (f : Log.Filter) (calls : List Call) :
    ∃ turns n, ((empty.callAll calls).run f).result = .ok (turns, n) ∧
      turns.map Turn.call = calls ∧ Nests f turns n := by
  obtain ⟨turns, n, hrun, hcalls, hleaves⟩ := exists_callAll f calls
  have hopen : unmatched (succeeded turns) = n.outermostFirst := hleaves.unmatched_eq
  refine ⟨turns, n, hrun, hcalls, ?_, hopen.symm, ?_,
    fun kind ip => ⟨_, result_call_enter n kind ip⟩, hleaves.exists_closes f⟩
  · rw [hcalls]
    constructor
    · rintro ⟨hok, hended⟩
      rw [outermostFirst, allEnded_eq_ok_iff.mp hended, succeeded_eq_map hok, hcalls] at hleaves
      exact hleaves.wellNested
    · intro hnested
      -- a well-nested word can be taken, and so it has been
      obtain ⟨turns', hrun', hok⟩ := callAll_of_takeAll? (hnested.takeAll?_eq empty) f
      obtain ⟨rfl, rfl⟩ := Prod.mk.inj (Except.ok.inj (hrun.symm.trans hrun'))
      exact ⟨hok, rfl⟩
  · rw [hopen, outermostFirst, List.getLast?_reverse, allEnded]
    rcases n.blocks with _ | ⟨top, rest⟩ <;> rfl

end Nesting

end StackFront
