import Mathlib.Data.List.Perm.Basic
import Mathlib.Logic.Function.Basic
import StackFront.Demo.Instruction
import StackFront.Proofs.Compilation.Detour

/-!
# One list for the queue and the stream

A reader takes tokens from a queue and, past it, from a stream. Looking at a token moves it from the
stream into the queue, so that what is queued next comes after it and what is installed in place of
the stream does not touch it. All this is said without a queue and without streams, by a list of
tokens with a boundary in it: tokens are read at its front and queued at the boundary, and another
source replaces what is past the boundary.

* `Lookahead` is the list with its boundary, and `Desk` has the sources beside it that are not being
  read from.
* `Desk.advance` follows a history by what was asked for, and does not look into the session.
* `Desk.Fits` says that a desk shows what a compilation holds. It is what a step preserves.
* `serves_lookahead` is the result.

A detour empties the queue and comes back to another, which is not an operation on the list. Nor is
it when the parser pulls from the stream that is being read from, by a handle of its own. `Orderly`
leaves these out.
-/

namespace StackFront

/-! ### The list -/

/-- **Tokens to be read, with a boundary** before the first of them that is still in its source. -/
structure Lookahead where
  tokens : List Token
  boundary : Nat

namespace Lookahead

/-- Reading takes the first token off, from whichever side of the boundary. -/
def read (a : Lookahead) : Lookahead := ⟨a.tokens.tail, a.boundary - 1⟩

/-- Looking at a token takes it over the boundary, if none is before it. -/
def look (a : Lookahead) : Lookahead :=
  if a.boundary = 0 ∧ a.tokens ≠ [] then { a with boundary := 1 } else a

/-- A token that is queued comes last before the boundary. -/
def enqueue (a : Lookahead) (t : Token) : Lookahead :=
  ⟨a.tokens.insertIdx a.boundary t, a.boundary + 1⟩

/-- A token that is put back comes first, before the boundary. -/
def putBack (a : Lookahead) (t : Token) : Lookahead := ⟨t :: a.tokens, a.boundary + 1⟩

/-- Puts other tokens in the place of those past the boundary. -/
def install (a : Lookahead) (tokens : List Token) : Lookahead :=
  { a with tokens := a.tokens.take a.boundary ++ tokens }

/-- The list of a queue and what is pending behind it. -/
def join (queue rest : List Token) : Lookahead := ⟨queue ++ rest, queue.length⟩

theorem read_join_nil (rest : List Token) : (join [] rest).read = join [] rest.tail := rfl

theorem read_join_cons (t : Token) (queue rest : List Token) :
    (join (t :: queue) rest).read = join queue rest :=
  rfl

/-- With an empty queue, the token that is looked at goes into it. -/
theorem look_join_nil (rest : List Token) :
    (join [] rest).look = join rest.head?.toList rest.tail := by
  cases rest with
  | nil => rfl
  | cons t rest => exact if_pos ⟨rfl, List.cons_ne_nil t rest⟩

theorem look_join_cons (t : Token) (queue rest : List Token) :
    (join (t :: queue) rest).look = join (t :: queue) rest :=
  if_neg fun h => Nat.succ_ne_zero _ h.1

theorem insertIdx_length_append (queue rest : List Token) (t : Token) :
    (queue ++ rest).insertIdx queue.length t = queue ++ t :: rest := by
  induction queue with
  | nil => rfl
  | cons u queue ih => exact congrArg (u :: ·) ih

theorem enqueue_join (queue rest : List Token) (t : Token) :
    (join queue rest).enqueue t = join (queue ++ [t]) rest := by
  unfold enqueue join
  rw [insertIdx_length_append, List.append_assoc, List.length_append]
  rfl

theorem install_join (queue rest tokens : List Token) :
    (join queue rest).install tokens = join queue tokens := by
  unfold install join
  rw [List.take_left]

theorem drop_join (queue rest : List Token) :
    (join queue rest).tokens.drop (join queue rest).boundary = rest :=
  List.drop_left

end Lookahead

/-! ### The sources beside it -/

/-- **What a reader has in front of it**: its list, the handle to the source that the list ends in,
and beside it what the other sources hold. -/
structure Desk extends Lookahead where
  source : Source
  shelf : Source → List Token

variable {ω : Type}

namespace Desk

/-- Puts the source away, with what has not been taken over the boundary, and installs another. -/
def exchange (d : Desk) (source : Source) : Desk :=
  let shelf := Function.update d.shelf d.source (d.tokens.drop d.boundary)
  { toLookahead := d.install (shelf source), source, shelf }

/-- **Follows an event** by its command. Only of a stream that was opened the reply has to be known,
which says by what handle. -/
def advance (d : Desk) (e : Event ω) : Desk :=
  match e.command, e.reply with
  | .openStream tokens, .source source =>
    { d with shelf := Function.update d.shelf source tokens }
  | .pull source, _ => { d with shelf := Function.update d.shelf source (d.shelf source).tail }
  | .setSource source, _ => d.exchange source
  | .read, _ => { d with toLookahead := d.read }
  | .look, _ => { d with toLookahead := d.look }
  | .enqueue t, _ => { d with toLookahead := d.enqueue t }
  | .putBack t, _ => { d with toLookahead := d.putBack t }
  | _, _ => d

/-- The desk of a reader with nothing queued: the list is the source. -/
def lay (c : Compilation ω) : Desk where
  tokens := c.streams.pending c.position.source
  boundary := 0
  source := c.position.source
  shelf := c.streams.pending

/-- **A desk shows what a compilation holds.** -/
structure Fits (d : Desk) (c : Compilation ω) : Prop where
  lookahead_eq : d.toLookahead = .join c.position.queue (c.streams.pending c.position.source)
  source_eq : d.source = c.position.source
  /-- The shelf is right but for the source that is being read from, which is not on it. -/
  shelf_eq : ∀ src ≠ c.position.source, d.shelf src = c.streams.pending src
  opened : c.streams.Opened c.position.source

variable {d : Desk} {c c' : Compilation ω}

theorem fits_lay (hq : c.position.queue = []) (ho : c.streams.Opened c.position.source) :
    (lay c).Fits c := by
  refine ⟨?_, rfl, fun _ _ => rfl, ho⟩
  rw [hq]
  rfl

/-- A desk shows the queue, the source and the streams, and nothing else. -/
theorem Fits.congr (h : d.Fits c) (hqueue : c'.position.queue = c.position.queue)
    (hsource : c'.position.source = c.position.source) (hstreams : c'.streams = c.streams) :
    d.Fits c' := by
  obtain ⟨hlook, hsrc, hshelf, hopen⟩ := h
  constructor
  · rw [hqueue, hsource, hstreams]
    exact hlook
  · exact hsrc.trans hsource.symm
  · rw [hsource, hstreams]
    exact hshelf
  · rw [hsource, hstreams]
    exact hopen

/-- Putting the source away, the shelf is right altogether. -/
theorem Fits.shelf_exchange (h : d.Fits c) (source : Source) :
    (d.exchange source).shelf = c.streams.pending := by
  funext src
  change Function.update d.shelf d.source (d.tokens.drop d.boundary) src = _
  rw [h.source_eq, h.lookahead_eq, Lookahead.drop_join, Function.update_apply]
  split
  · next hsrc => rw [hsrc]
  · next hsrc => exact h.shelf_eq src hsrc

theorem Fits.setSource (h : d.Fits c) {source : Source} (ho : c.streams.Opened source) :
    (d.exchange source).Fits (c.setSource source) := by
  have hshelf := h.shelf_exchange source
  refine ⟨?_, rfl, fun src _ => congrFun hshelf src, ho⟩
  calc (d.exchange source).toLookahead
      = d.install ((d.exchange source).shelf source) := rfl
    _ = .join c.position.queue (c.streams.pending source) := by
        rw [hshelf, h.lookahead_eq, Lookahead.install_join]

theorem Fits.openStream (h : d.Fits c) (tokens : List Token) :
    ({ d with shelf := Function.update d.shelf (c.openStream tokens).1 tokens } : Desk).Fits
      (c.openStream tokens).2 := by
  refine ⟨?_, h.source_eq, fun src hsrc => ?_, h.opened.openList tokens⟩
  · -- the stream that is being read from was opened before
    change _ = Lookahead.join c.position.queue
      ((c.streams.openList tokens).2.pending c.position.source)
    rw [h.opened.pending_openList]
    exact h.lookahead_eq
  · change Function.update d.shelf ⟨c.streams.rest.size⟩ tokens src =
      (c.streams.openList tokens).2.pending src
    rw [Function.update_apply, Streams.pending_open, h.shelf_eq src hsrc]
    rcases src with ⟨i⟩
    simp only [Source.mk.injEq]

/-- Pulling from a stream on the shelf leaves the list alone. -/
theorem Fits.pull (h : d.Fits c) {source : Source} (hne : source ≠ c.position.source) :
    ({ d with shelf := Function.update d.shelf source (d.shelf source).tail } : Desk).Fits
      (c.pull source).2 := by
  refine ⟨?_, h.source_eq, fun src hsrc => ?_, h.opened.next source⟩
  · change _ = Lookahead.join c.position.queue
      ((c.streams.next source).2.pending c.position.source)
    rw [Streams.pending_next, if_neg hne.symm]
    exact h.lookahead_eq
  · change Function.update d.shelf source (d.shelf source).tail src =
      (c.streams.next source).2.pending src
    rw [Function.update_apply, Streams.pending_next, h.shelf_eq src hsrc, h.shelf_eq source hne]

/-- What is on the shelf stays as it is when the source is pulled from. -/
theorem Fits.shelf_next (h : d.Fits c) {src : Source} (hsrc : src ≠ c.position.source) :
    d.shelf src = (c.streams.next c.position.source).2.pending src := by
  rw [Streams.pending_next, if_neg hsrc]
  exact h.shelf_eq src hsrc

theorem Fits.read (h : d.Fits c) :
    ({ d with toLookahead := d.toLookahead.read } : Desk).Fits c.read.2 := by
  have hlook := h.lookahead_eq
  rcases hq : c.position.queue with _ | ⟨t, queue⟩
  · -- the list loses the head of the stream
    rw [Compilation.read_of_nil hq]
    refine ⟨?_, h.source_eq, fun src hsrc => h.shelf_next hsrc, h.opened.next _⟩
    rw [hq] at hlook
    change d.toLookahead.read = Lookahead.join c.position.queue
      ((c.streams.next c.position.source).2.pending c.position.source)
    rw [hlook, hq, Lookahead.read_join_nil, Streams.pending_next, if_pos rfl]
  · -- the list loses the head of the queue
    rw [Compilation.read_of_cons hq]
    refine ⟨?_, h.source_eq, h.shelf_eq, h.opened⟩
    rw [hq] at hlook
    exact (congrArg Lookahead.read hlook).trans (Lookahead.read_join_cons t queue _)

theorem Fits.look (h : d.Fits c) :
    ({ d with toLookahead := d.toLookahead.look } : Desk).Fits c.look.2 := by
  have hlook := h.lookahead_eq
  rcases hq : c.position.queue with _ | ⟨t, queue⟩
  · -- a token moves from the stream into the queue, and the list stays the same
    rw [Compilation.look_of_nil hq]
    refine ⟨?_, h.source_eq, fun src hsrc => h.shelf_next hsrc, h.opened.next _⟩
    rw [hq] at hlook
    change d.toLookahead.look = Lookahead.join (c.streams.pending c.position.source).head?.toList
      ((c.streams.next c.position.source).2.pending c.position.source)
    rw [hlook, Lookahead.look_join_nil, Streams.pending_next, if_pos rfl]
  · rw [Compilation.look_of_cons hq]
    refine ⟨?_, h.source_eq, h.shelf_eq, h.opened⟩
    change d.toLookahead.look = _
    rw [hlook, hq, Lookahead.look_join_cons]

theorem Fits.enqueue (h : d.Fits c) (t : Token) :
    ({ d with toLookahead := d.toLookahead.enqueue t } : Desk).Fits (c.enqueue t) := by
  refine ⟨?_, h.source_eq, h.shelf_eq, h.opened⟩
  change d.toLookahead.enqueue t = _
  rw [h.lookahead_eq, Lookahead.enqueue_join]
  rfl

theorem Fits.putBack (h : d.Fits c) (t : Token) :
    ({ d with toLookahead := d.toLookahead.putBack t } : Desk).Fits (c.putBack t) := by
  refine ⟨?_, h.source_eq, h.shelf_eq, h.opened⟩
  change d.toLookahead.putBack t = _
  rw [h.lookahead_eq]
  rfl

end Desk

/-! ### Histories -/

/-- The stream that the parser pulls from by a handle of its own, past the reader. -/
def Command.pulls? : Command ω → Option Source
  | .pull source => some source
  | _ => none

/-- Whether a command sets out on a detour or comes back from one. -/
def Command.detours : Command ω → Bool
  | .detourTo _ _ | .returnTo _ => true
  | _ => false

/-- **An event that the list can follow**: it is no detour, and the stream that is being read from is
not pulled from past the reader. -/
def Event.Orderly (e : Event ω) : Prop :=
  e.command.detours = false ∧
    ∀ source ∈ e.command.pulls?, source ≠ e.before.compilation.position.source

instance (e : Event ω) : Decidable e.Orderly :=
  inferInstanceAs (Decidable (_ ∧ ∀ source ∈ e.command.pulls?, source ≠ _))

/-- The token that was read, if one was. -/
def Event.delivered (e : Event ω) : List Token :=
  match e.command with
  | .read => e.reply.token?.toList
  | _ => []

/-- The token that was put in, if one was. -/
def Event.supplied (e : Event ω) : List Token :=
  match e.command with
  | .enqueue t | .putBack t => [t]
  | _ => []

namespace Session

variable [Opcode ω] {f : Log.Filter} {s s₀ s' : Session ω} {command : Command ω} {reply : Reply}
  {events : List (Event ω)} {d : Desk}

/-- **One step**: the desk follows. -/
theorem Performs.fits (h : Performs f s command reply s') (hd : d.Fits s.compilation)
    (hh : (⟨s, command, reply⟩ : Event ω).HandleOpened)
    (he : (⟨s, command, reply⟩ : Event ω).Orderly) :
    (d.advance ⟨s, command, reply⟩).Fits s'.compilation := by
  cases command with
  | openStream tokens =>
    cases h.act
    exact hd.openStream tokens
  | pull source =>
    cases h.act
    exact hd.pull (he.2 source rfl)
  | setSource source =>
    cases h.act
    exact hd.setSource (hh source rfl)
  | read =>
    cases h.act
    exact hd.read
  | look =>
    cases h.act
    exact hd.look
  | enqueue t =>
    cases h.act
    exact hd.enqueue t
  | putBack t =>
    cases h.act
    exact hd.putBack t
  | detourTo | returnTo => cases he.1
  | _ =>
    -- no other command is about the queue, the source or the streams
    exact hd.congr (h.keeps .queue (by simp [Command.writes]))
      (h.keeps .source (by simp [Command.writes])) (h.keeps .streams (by simp [Command.writes]))

/-- **The desk follows a run** that it fits at the beginning. -/
theorem Run.fits (h : Run f s₀ events s) (hd : d.Fits s₀.compilation)
    (he : ∀ e ∈ events, e.HandleOpened ∧ e.Orderly) :
    (events.foldl Desk.advance d).Fits s.compilation := by
  induction h with
  | start => exact hd
  | step _ hs ih =>
    rw [List.foldl_append]
    obtain ⟨hh, ho⟩ := he _ (List.mem_append_right _ (List.mem_singleton_self _))
    exact hs.fits (ih fun e hm => he e (List.mem_append_left _ hm)) hh ho

/-- **One step** loses no token and doubles none, as long as the source is not exchanged. -/
theorem Performs.perm (h : Performs f s command reply s') (hd : d.Fits s.compilation)
    (hc : command.handle? = none) :
    ((⟨s, command, reply⟩ : Event ω).delivered ++ (d.advance ⟨s, command, reply⟩).tokens).Perm
      (d.tokens ++ (⟨s, command, reply⟩ : Event ω).supplied) := by
  cases command with
  | read =>
    cases h.act
    -- what was read is the head of the list
    have hhead : s.compilation.read.1 = d.tokens.head? := by
      rw [Compilation.read_fst, hd.lookahead_eq]
      rfl
    change (s.compilation.read.1.toList ++ d.tokens.tail).Perm (d.tokens ++ [])
    rw [hhead, List.append_nil]
    rcases d.tokens with _ | ⟨t, rest⟩
    · exact .nil
    · exact .refl _
  | look =>
    have hsame : d.toLookahead.look.tokens = d.tokens := by
      unfold Lookahead.look
      split <;> rfl
    change d.toLookahead.look.tokens.Perm (d.tokens ++ [])
    rw [hsame, List.append_nil]
  | enqueue t =>
    have hle : d.boundary ≤ d.tokens.length := by
      rw [hd.lookahead_eq, Lookahead.join, List.length_append]
      exact Nat.le_add_right _ _
    exact (List.perm_insertIdx t d.tokens hle).trans (List.perm_append_singleton t d.tokens).symm
  | putBack t => exact (List.perm_append_singleton t d.tokens).symm
  | openStream tokens =>
    cases h.act
    exact List.Perm.of_eq (List.append_nil _).symm
  | setSource | detourTo => cases hc
  | _ => exact List.Perm.of_eq (List.append_nil _).symm

/-- **A run** that does not exchange the source delivers what was there and what was put in, but for
what is left on the list. -/
theorem Run.perm (h : Run f s₀ events s) (hd : d.Fits s₀.compilation)
    (he : ∀ e ∈ events, e.HandleOpened ∧ e.Orderly)
    (hc : ∀ e ∈ events, e.command.handle? = none) :
    (events.flatMap Event.delivered ++ (events.foldl Desk.advance d).tokens).Perm
      (d.tokens ++ events.flatMap Event.supplied) := by
  induction h with
  | start => exact List.Perm.of_eq (List.append_nil _).symm
  | @step events s s' command reply run hs ih =>
    have he' := fun e hm => he e (List.mem_append_left _ hm)
    have hstep := hs.perm (run.fits hd he')
      (hc _ (List.mem_append_right _ (List.mem_singleton_self _)))
    have hrun := ih he' fun e hm => hc e (List.mem_append_left _ hm)
    rw [List.foldl_append, List.flatMap_append, List.flatMap_append, List.flatMap_singleton,
      List.flatMap_singleton, List.append_assoc]
    let e : Event ω := ⟨s, command, reply⟩
    -- the list as it was before the step stands between the two
    calc List.Perm
          (events.flatMap Event.delivered ++
            (e.delivered ++ ((events.foldl Desk.advance d).advance e).tokens))
          (events.flatMap Event.delivered ++
            ((events.foldl Desk.advance d).tokens ++ e.supplied)) := hstep.append_left _
      _ = (events.flatMap Event.delivered ++ (events.foldl Desk.advance d).tokens) ++
          e.supplied := (List.append_assoc _ _ _).symm
      List.Perm _ ((d.tokens ++ events.flatMap Event.supplied) ++ e.supplied) :=
        hrun.append_right _
      _ = d.tokens ++ (events.flatMap Event.supplied ++ e.supplied) := List.append_assoc _ _ _

/-- **A session reads as a list with a boundary says.** -/
structure Serves (f : Log.Filter) (s : Session ω) (a : Lookahead) : Prop where
  boundary_le : a.boundary ≤ a.tokens.length
  /-- The queue is what is before the boundary. -/
  queue_eq : s.compilation.position.queue = a.tokens.take a.boundary
  /-- Reading on delivers the list, in its order. -/
  readings_eq : ∀ n, s.compilation.readings n = a.tokens.take n
  /-- Reading hands out the head and moves to it. With no token left it does not move. -/
  read : ∃ s', Performs f s .read (.token a.tokens.head?) s' ∧
    s'.compilation.location = (a.tokens.head?.map Token.location).getD s.compilation.location
  /-- Looking hands out the head and does not move. -/
  look : ∃ s', Performs f s .look (.token a.tokens.head?) s' ∧
    s'.compilation.location = s.compilation.location
  /-- Tokens are put in and sources exchanged at any time. -/
  accepts : ∀ t source, ∀ command ∈ [.enqueue t, .putBack t, .setSource source],
    ∃ s', Performs f s command .done s' ∧ s'.compilation.location = s.compilation.location

theorem serves_of_fits (f : Log.Filter) (hd : d.Fits s.compilation) :
    Serves f s d.toLookahead := by
  have htokens : d.tokens = s.compilation.pending := congrArg Lookahead.tokens hd.lookahead_eq
  have hboundary : d.boundary = s.compilation.position.queue.length :=
    congrArg Lookahead.boundary hd.lookahead_eq
  have hpending : s.compilation.pending = s.compilation.position.queue ++
      s.compilation.streams.pending s.compilation.position.source := rfl
  constructor
  · rw [htokens, hboundary, hpending, List.length_append]
    exact Nat.le_add_right _ _
  · rw [htokens, hboundary, hpending, List.take_left]
  · intro n
    rw [htokens, Compilation.readings_eq]
  · rw [htokens, ← Compilation.read_fst]
    exact ⟨_, performs_of_act (fun _ => by simp) rfl, Compilation.location_read _⟩
  · rw [htokens, ← Compilation.look_fst]
    exact ⟨_, performs_of_act (fun _ => by simp) rfl, Compilation.location_look _⟩
  · intro t source command hc
    simp only [List.mem_cons, List.not_mem_nil, or_false] at hc
    rcases hc with rfl | rfl | rfl <;>
      exact ⟨_, performs_of_act (fun _ => by simp) rfl, rfl⟩

/-- **The queue and the stream read as one list with a boundary.** Let a session with nothing queued
read from any stream. Whatever is read, looked at, queued, put back and installed from there on, and
whatever else is done in between, the list that follows the history is the one that is read, and the
queue is what is before its boundary. As long as the source is not exchanged, every token of the
stream and every token put in is delivered once, or is left on the list. -/
theorem serves_lookahead (h : Run f s₀ events s) (hq : s₀.compilation.position.queue = [])
    (ho : s₀.compilation.streams.Opened s₀.compilation.position.source)
    (he : ∀ e ∈ events, e.HandleOpened ∧ e.Orderly) :
    Serves f s (events.foldl Desk.advance (.lay s₀.compilation)).toLookahead ∧
      ((∀ e ∈ events, e.command.handle? = none) →
        (events.flatMap Event.delivered ++
            (events.foldl Desk.advance (.lay s₀.compilation)).tokens).Perm
          (s₀.compilation.streams.pending s₀.compilation.position.source ++
            events.flatMap Event.supplied)) := by
  have hd : (Desk.lay s₀.compilation).Fits s₀.compilation := Desk.fits_lay hq ho
  exact ⟨serves_of_fits f (h.fits hd he), h.perm hd he⟩

/-- A stream of two tokens, which is read from. -/
def supplied : List (Command Demo.Instruction) :=
  [.openStream [⟨"a", .unknown⟩, ⟨"b", .unknown⟩], .setSource ⟨1⟩]

/-- A token is looked at, and then others are queued and put back. -/
def interleaved : List (Command Demo.Instruction) :=
  [.look, .enqueue ⟨"q", .unknown⟩, .putBack ⟨"u", .unknown⟩, .read]

/-- Another stream is read from instead, from its second token on. -/
def exchanged : List (Command Demo.Instruction) :=
  [.openStream [⟨"x", .unknown⟩, ⟨"y", .unknown⟩], .pull ⟨2⟩, .setSource ⟨2⟩]

/-- The token that was looked at comes before the one that was queued, and both of them stay when
the source is exchanged. -/
theorem looked_at_before_queued :
    ∃ c s, Compilation.create .default (.create .collect false) = .ok c ∧
      s = ((start c).play .off supplied).2 ∧
      Serves .off (s.play .off interleaved).2
        ⟨[⟨"a", .unknown⟩, ⟨"q", .unknown⟩, ⟨"b", .unknown⟩], 2⟩ ∧
      List.Perm ((s.play .off interleaved).1.flatMap Event.delivered ++
          [⟨"a", .unknown⟩, ⟨"q", .unknown⟩, ⟨"b", .unknown⟩])
        [⟨"a", .unknown⟩, ⟨"b", .unknown⟩, ⟨"q", .unknown⟩, ⟨"u", .unknown⟩] ∧
      Serves .off (s.play .off (interleaved ++ exchanged)).2
        ⟨[⟨"a", .unknown⟩, ⟨"q", .unknown⟩, ⟨"y", .unknown⟩], 2⟩ := by
  refine ⟨_, _, rfl, rfl, ?_, ?_, ?_⟩
  · exact (serves_lookahead (run_play .off _ interleaved) rfl (by decide) (by decide)).1
  · exact (serves_lookahead (run_play .off _ interleaved) rfl (by decide) (by decide)).2 (by decide)
  · exact (serves_lookahead (run_play .off _ (interleaved ++ exchanged)) rfl (by decide)
      (by decide)).1

end Session

end StackFront
