import StackFront.Demo.Instruction
import StackFront.Proofs.Compilation.Frame

/-!
# Detours and the tokens they cost

A position that has been kept can be come back to after any number of steps. What the steps did to
the open blocks, to the queue and to the location is then undone, and nothing else is. The stream
that was being read from is not copied into the position, so that the tokens pulled from it in
between are gone; here they are accounted for one by one.

* `readings` are the tokens that reading on would deliver, and `readings_eq` says that these are the
  pending ones.
* `Event.taken` is what a single event has pulled from a stream, be it by a handle of the parser's
  own or by reading or looking past the queue.
* `Run.pending_eq` splits what a stream held into what a run has pulled from it and what is left.
* `Handled` is the invariant of the handles: those a session may come back to were opened.
* `returnTo_restores` is the result.

A handle is obtained by opening a stream. That the handles a parser reads from were obtained in this
way is its own affair, and is asked for as `Event.HandleOpened`.
-/

namespace StackFront

/-! ### Streams -/

namespace Streams

variable {st : Streams} {src other : Source}

/-- **The handle leads to a stream** that has been opened. -/
def Opened (st : Streams) (src : Source) : Prop := src.index < st.rest.size

instance : Decidable (st.Opened src) := inferInstanceAs (Decidable (_ < _))

theorem Opened.next (h : st.Opened other) (src : Source) : (st.next src).2.Opened other := by
  unfold Opened
  rw [size_next]
  exact h

theorem Opened.openList (h : st.Opened other) (tokens : List Token) :
    (st.openList tokens).2.Opened other := by
  unfold Opened Streams.openList
  rw [Array.size_push]
  exact Nat.lt_succ_of_lt h

/-- Opening a stream does not show in those opened before. -/
theorem Opened.pending_openList (h : st.Opened other) (tokens : List Token) :
    (st.openList tokens).2.pending other = st.pending other := by
  rw [pending_open, if_neg (Nat.ne_of_lt h)]

end Streams

variable {ω : Type}

/-! ### What is delivered -/

/-- **The tokens that reading on delivers**, as far as `n` of them. -/
def Compilation.readings (c : Compilation ω) : (n : Nat) → List Token
  | 0 => []
  | n + 1 =>
    match c.read with
    | (some t, c) => t :: c.readings n
    | (none, _) => []

theorem Compilation.readings_eq (c : Compilation ω) (n : Nat) :
    c.readings n = c.pending.take n := by
  induction n generalizing c with
  | zero => rfl
  | succ n ih =>
    have hhead := c.read_fst
    have htail := c.pending_read
    unfold readings
    rcases hr : c.read with ⟨_ | t, c'⟩
    · -- nothing is read only where nothing is pending
      rw [hr] at hhead
      rw [List.head?_eq_none_iff.mp hhead.symm]
      rfl
    · -- what is read is the head, and the tail is pending afterwards
      rw [hr] at hhead htail
      obtain ⟨rest, hrest⟩ := List.head?_eq_some_iff.mp hhead.symm
      rw [hrest] at htail ⊢
      exact congrArg (t :: ·) ((ih c').trans (congrArg (List.take n) htail))

/-! ### What is pulled -/

/-- The token of a reply that has one. -/
def Reply.token? : Reply → Option Token
  | .token t => t
  | _ => none

/-- **The stream that an event pulls from**, if it does. Reading and looking pull only past the
queue. -/
def Event.pulls? (e : Event ω) : Option Source :=
  match e.command with
  | .pull source => some source
  | .read | .look =>
    if e.before.compilation.position.queue.isEmpty then
      some e.before.compilation.position.source
    else none
  | _ => none

/-- **The tokens that an event has pulled from a stream**: none, or the one it was answered with. -/
def Event.taken (e : Event ω) (source : Source) : List Token :=
  if e.pulls? = some source then e.reply.token?.toList else []

theorem Event.taken_of_pulls {e : Event ω} {src : Source} (h : e.pulls? = some src)
    (source : Source) : e.taken source = if src = source then e.reply.token?.toList else [] := by
  unfold taken
  simp only [h, Option.some.injEq]

theorem Event.taken_of_not_pulls {e : Event ω} (h : e.pulls? = none) (source : Source) :
    e.taken source = [] := by
  unfold taken
  rw [h, if_neg (Option.some_ne_none source).symm]

/-- The tokens that a run has pulled from a stream, in order. -/
def taken (events : List (Event ω)) (source : Source) : List Token :=
  events.flatMap fun e => e.taken source

/-- The name a command keeps the current position under, if it does. -/
def Command.keeps? : Command ω → Option String
  | .keepPosition name | .detourTo name _ => some name
  | _ => none

/-- The name under which a command keeps a position or comes back to one. -/
def Command.slot? : Command ω → Option String
  | .keepPosition name | .detourTo name _ | .returnTo name => some name
  | _ => none

/-- The handle that a command says to read from. -/
def Command.handle? : Command ω → Option Source
  | .setSource source | .detourTo _ source => some source
  | _ => none

/-- **The parser reads from streams that were opened**, when it says which to read from. -/
def Event.HandleOpened (e : Event ω) : Prop :=
  ∀ source ∈ e.command.handle?, e.before.compilation.streams.Opened source

instance (e : Event ω) : Decidable e.HandleOpened :=
  inferInstanceAs (Decidable (∀ source ∈ e.command.handle?, Streams.Opened _ source))

namespace Session

variable [Opcode ω] {f : Log.Filter} {settings : Settings} {s s' : Session ω}
  {command : Command ω} {reply : Reply} {events : List (Event ω)} {source : Source}
  {name : String}

omit [Opcode ω] in
/-- An event that pulls was answered with the token that it pulled. -/
theorem pending_eq_of_pulls {e : Event ω} {c' : Compilation ω} {src : Source}
    (hp : e.pulls? = some src)
    (ht : e.reply.token? = (e.before.compilation.streams.next src).1)
    (hc : c'.streams = (e.before.compilation.streams.next src).2)
    (ho : e.before.compilation.streams.Opened source) :
    e.before.compilation.streams.pending source = e.taken source ++ c'.streams.pending source ∧
      c'.streams.Opened source := by
  rw [Event.taken_of_pulls hp, ht, hc]
  exact ⟨Streams.pending_eq_next _ src source, ho.next src⟩

omit [Opcode ω] in
theorem pending_eq_of_not_pulls {e : Event ω} {c' : Compilation ω} (hp : e.pulls? = none)
    (hc : c'.streams = e.before.compilation.streams)
    (ho : e.before.compilation.streams.Opened source) :
    e.before.compilation.streams.pending source = e.taken source ++ c'.streams.pending source ∧
      c'.streams.Opened source := by
  rw [Event.taken_of_not_pulls hp, hc]
  exact ⟨rfl, ho⟩

/-- **One step**: what a stream held is what the step has pulled from it, followed by what it still
holds. -/
theorem Performs.pending_eq (h : Performs f s command reply s')
    (ho : s.compilation.streams.Opened source) :
    s.compilation.streams.pending source =
        (⟨s, command, reply⟩ : Event ω).taken source ++ s'.compilation.streams.pending source ∧
      s'.compilation.streams.Opened source := by
  cases command with
  | openStream tokens =>
    -- the stream that is opened is a new one
    cases h.act
    exact ⟨(ho.pending_openList tokens).symm, ho.openList tokens⟩
  | pull src =>
    cases h.act
    exact pending_eq_of_pulls (e := ⟨s, .pull src, _⟩) rfl rfl rfl ho
  | read =>
    cases h.act
    change _ = _ ++ s.compilation.read.2.streams.pending source ∧
      s.compilation.read.2.streams.Opened source
    rcases hq : s.compilation.position.queue with _ | ⟨t, queue⟩
    · -- the queue is empty, and the token comes from the stream
      rw [Compilation.read_of_nil hq, ← Streams.next_fst]
      refine pending_eq_of_pulls (e := ⟨s, .read, .token _⟩) (if_pos ?_) rfl rfl ho
      rw [hq]
      rfl
    · -- the token comes from the queue, and no stream is touched
      rw [Compilation.read_of_cons hq]
      refine pending_eq_of_not_pulls (e := ⟨s, .read, .token _⟩) (if_neg ?_) rfl ho
      rw [hq]
      exact Bool.false_ne_true
  | look =>
    cases h.act
    change _ = _ ++ s.compilation.look.2.streams.pending source ∧
      s.compilation.look.2.streams.Opened source
    rcases hq : s.compilation.position.queue with _ | ⟨t, queue⟩
    · -- the token is pulled here, and not again when it is read
      rw [Compilation.look_of_nil hq, ← Streams.next_fst]
      refine pending_eq_of_pulls (e := ⟨s, .look, .token _⟩) (if_pos ?_) rfl rfl ho
      rw [hq]
      rfl
    · rw [Compilation.look_of_cons hq]
      refine pending_eq_of_not_pulls (e := ⟨s, .look, .token _⟩) (if_neg ?_) rfl ho
      rw [hq]
      exact Bool.false_ne_true
  | _ =>
    exact pending_eq_of_not_pulls (e := ⟨s, _, reply⟩) rfl
      (h.keeps .streams (by simp [Command.writes])) ho

/-- **A run** splits what a stream held into what it has pulled from it and what is left. -/
theorem Run.pending_eq (h : Run f s events s') (ho : s.compilation.streams.Opened source) :
    s.compilation.streams.pending source =
        taken events source ++ s'.compilation.streams.pending source ∧
      s'.compilation.streams.Opened source := by
  induction h with
  | start => exact ⟨rfl, ho⟩
  | step _ hs ih =>
    obtain ⟨hpend, ho'⟩ := ih
    obtain ⟨hstep, ho''⟩ := hs.pending_eq ho'
    refine ⟨?_, ho''⟩
    -- what the last step has pulled comes after what the steps before it have
    rw [hpend, hstep, taken, taken, List.flatMap_append, List.flatMap_singleton,
      List.append_assoc]

/-! ### Positions kept -/

/-- What keeps a position keeps that of the session it meets. -/
theorem Performs.get?_of_keeps (h : Performs f s command reply s')
    (hk : command.keeps? = some name) :
    s'.kept.get? name = some s.compilation.position ∧
      s'.compilation.streams = s.compilation.streams := by
  cases command with
  | keepPosition n =>
    cases hk
    obtain ⟨p, hr, hs⟩ := Step.exists_of_bind_pure h.act
    rw [Compilation.result_keepPosition] at hr
    cases hr
    cases hs
    exact ⟨Table.get?_insert_self _ _ _, rfl⟩
  | detourTo n source =>
    cases hk
    obtain ⟨⟨p, c⟩, hr, hs⟩ := Step.exists_of_bind_pure h.act
    rw [Compilation.result_detourTo] at hr
    cases hr
    cases hs
    exact ⟨Table.get?_insert_self _ _ _, rfl⟩
  | _ => cases hk

/-- A command that is not about a name leaves the position kept under it alone. -/
theorem Performs.get?_of_slot_ne (h : Performs f s command reply s')
    (hn : command.slot? ≠ some name) : s'.kept.get? name = s.kept.get? name := by
  cases command with
  | keepPosition n =>
    obtain ⟨p, -, hs⟩ := Step.exists_of_bind_pure h.act
    cases hs
    exact Table.get?_insert_of_ne _ (fun e => hn (congrArg some e)) _
  | detourTo n source =>
    obtain ⟨⟨p, c⟩, -, hs⟩ := Step.exists_of_bind_pure h.act
    cases hs
    exact Table.get?_insert_of_ne _ (fun e => hn (congrArg some e)) _
  | returnTo n =>
    -- what is given up by coming back is the position of another name
    have hne : n ≠ name := fun e => hn (congrArg some e)
    replace h := h.act
    rw [Session.act] at h
    rcases hk : s.kept.get? n with _ | p
    · rw [hk] at h
      cases h
      rfl
    · rw [hk] at h
      obtain ⟨c, -, hs⟩ := Step.exists_of_bind_pure h
      cases hs
      change (s.kept.erase n).get? name = _
      rw [Table.get?_erase, if_neg hne]
  | _ =>
    have hkept : s'.kept = s.kept := h.keeps .kept (by simp [Command.writes])
    rw [hkept]

theorem Run.get?_of_slot_ne (h : Run f s events s')
    (hn : ∀ e ∈ events, e.command.slot? ≠ some name) : s'.kept.get? name = s.kept.get? name := by
  induction h with
  | start => rfl
  | step _ hs ih =>
    rw [hs.get?_of_slot_ne (hn _ (List.mem_append_right _ (List.mem_singleton_self _)))]
    exact ih fun e he => hn e (List.mem_append_left _ he)

/-- **Coming back** succeeds wherever a position is kept. -/
theorem performs_returnTo {p : Position} (hk : s.kept.get? name = some p) :
    Performs f s (.returnTo name) .done
      ⟨{ s.compilation with position := p }, s.kept.erase name⟩ := by
  refine performs_of_act (fun _ => by simp) ?_
  rw [Session.act, hk]
  simp only [Step.result_bind, Compilation.result_returnTo]
  rfl

/-- A position that is kept after a step was kept before, or is the one that the step met. -/
theorem Performs.kept_before (h : Performs f s command reply s') {p : Position}
    (hk : s'.kept.get? name = some p) : s.kept.get? name = some p ∨ p = s.compilation.position := by
  by_cases hn : command.slot? = some name
  · -- a command about this name keeps the position that it meets, or keeps none
    cases command with
    | keepPosition n =>
      have hp := (h.get?_of_keeps hn).1
      exact .inr (Option.some.inj (hk.symm.trans hp))
    | detourTo n source =>
      have hp := (h.get?_of_keeps hn).1
      exact .inr (Option.some.inj (hk.symm.trans hp))
    | returnTo n =>
      -- a position that is come back to is given up
      cases hn
      replace h := h.act
      rw [Session.act] at h
      rcases hb : s.kept.get? name with _ | q
      · rw [hb] at h
        cases h
        rw [hb] at hk
        cases hk
      · rw [hb] at h
        obtain ⟨c, -, hs⟩ := Step.exists_of_bind_pure h
        cases hs
        rw [Table.get?_erase, if_pos rfl] at hk
        cases hk
    | _ => cases hn
  · rw [h.get?_of_slot_ne hn] at hk
    exact .inl hk

/-- **The invariant of the handles**: the stream that is being read from was opened, and so were those
that a session may come back to. -/
structure Handled (s : Session ω) : Prop where
  source : s.compilation.streams.Opened s.compilation.position.source
  kept : ∀ name p, s.kept.get? name = some p → s.compilation.streams.Opened p.source

theorem Handled.step (h : Handled s) (hs : Performs f s command reply s')
    (he : (⟨s, command, reply⟩ : Event ω).HandleOpened) : Handled s' := by
  have hmono : ∀ src, s.compilation.streams.Opened src → s'.compilation.streams.Opened src :=
    fun src ho => (hs.pending_eq ho).2
  refine ⟨?_, fun name p hk => ?_⟩
  · -- the source changes in three ways, and the last of them brings back a handle from before
    cases command with
    | setSource src =>
      cases hs.act
      exact he src rfl
    | detourTo n src =>
      obtain ⟨⟨p, c⟩, hr, hs⟩ := Step.exists_of_bind_pure hs.act
      rw [Compilation.result_detourTo] at hr
      cases hr
      cases hs
      exact he src rfl
    | returnTo n =>
      rcases hk : s.kept.get? n with _ | p
      · replace hs := hs.act
        rw [Session.act, hk] at hs
        cases hs
        exact h.source
      · rw [performs_returnTo hk |>.unique hs]
        exact h.kept n p hk
    | _ =>
      have hsource : s'.compilation.position.source = s.compilation.position.source :=
        hs.keeps .source (by simp [Command.writes])
      rw [hsource]
      exact hmono _ h.source
  · -- streams stay open, and a position kept now was kept before or is the current one
    rcases hs.kept_before hk with hk | rfl
    · exact hmono _ (h.kept name p hk)
    · exact hmono _ h.source

theorem handled_of_reached (h : Reached f settings events s)
    (hh : ∀ e ∈ events, e.HandleOpened) : Handled s := by
  refine h.induction (P := fun events s => (∀ e ∈ events, e.HandleOpened) → Handled s) ?_ ?_ hh
  · -- a new session reads from its first stream and has kept nothing
    intro reporter c hc _
    obtain ⟨arena, -, rfl⟩ := Compilation.create_eq_ok_iff.mp hc
    refine ⟨Nat.zero_lt_one, fun name p hk => ?_⟩
    cases hk
  · intro events s command reply s' _ ih hs hh
    have he := hh _ (List.mem_append_right _ (List.mem_singleton_self _))
    exact (ih fun e he => hh e (List.mem_append_left _ he)).step hs he

/-- **Coming back restores what it should.** Let a position be kept in any session, by itself or by
setting out on a detour, and let any steps follow that leave its name alone. Then the session can
come back to it: the open blocks, the source, the queue and the location are those of the position,
and everything else is what the steps made of it. Of the tokens that would have been read exactly
those are missing that the steps have pulled from the interrupted stream. -/
theorem returnTo_restores (h : Reached f settings events s) (hh : ∀ e ∈ events, e.HandleOpened)
    {keep : Command ω} {s₁ s₂ : Session ω} {body : List (Event ω)}
    (hkeep : Performs f s keep reply s₁) (hname : keep.keeps? = some name)
    (hbody : Run f s₁ body s₂) (hslot : ∀ e ∈ body, e.command.slot? ≠ some name) :
    ∃ s₃, Performs f s₂ (.returnTo name) .done s₃ ∧
      s₃.compilation = { s₂.compilation with position := s.compilation.position } ∧
      (∀ other, other ≠ name → s₃.kept.get? other = s₂.kept.get? other) ∧
      (∀ n, s₃.compilation.readings n = (s.compilation.position.queue ++
        s₂.compilation.streams.pending s.compilation.position.source).take n) ∧
      (∀ n, s.compilation.readings n = (s.compilation.position.queue ++
        (taken body s.compilation.position.source ++
          s₂.compilation.streams.pending s.compilation.position.source)).take n) ∧
      (taken body s.compilation.position.source = [] →
        ∀ n, s₃.compilation.readings n = s.compilation.readings n) := by
  -- the position stays where it was put
  obtain ⟨hkept, hstreams⟩ := hkeep.get?_of_keeps hname
  have hkept₂ : s₂.kept.get? name = some s.compilation.position :=
    (hbody.get?_of_slot_ne hslot).trans hkept
  -- and its stream is shared: what the steps have pulled from it is accounted for
  have hopened := (handled_of_reached h hh).source
  rw [← hstreams] at hopened
  have hpend := (hbody.pending_eq hopened).1
  rw [hstreams] at hpend
  refine ⟨_, performs_returnTo hkept₂, rfl, fun other ho => ?_, fun n => ?_, fun n => ?_,
    fun hnone n => ?_⟩
  · -- the other positions are still kept
    rw [Table.get?_erase, if_neg (Ne.symm ho)]
  · exact Compilation.readings_eq _ n
  · rw [Compilation.readings_eq, Compilation.pending, hpend]
  · -- if nothing was pulled, the stream holds what it held
    rw [hnone] at hpend
    rw [Compilation.readings_eq, Compilation.readings_eq, Compilation.pending,
      Compilation.pending, hpend]
    rfl

/-- A stream of three tokens, the first of which is looked at. -/
def opening : List (Command Demo.Instruction) :=
  [.openStream [⟨"a", .unknown⟩, ⟨"b", .unknown⟩, ⟨"c", .unknown⟩], .setSource ⟨1⟩, .look]

/-- A detour over a stream of its own, in which a token is pulled from the interrupted one. -/
def wandering : List (Command Demo.Instruction) :=
  [.openStream [⟨"x", .unknown⟩], .setSource ⟨2⟩, .read, .keepPosition "inner", .pull ⟨1⟩,
    .declareConstant ⟨"n", .unknown⟩ 1, .returnTo "inner"]

/-- The token that was queued is read after the detour, the one that was pulled is not. -/
theorem pulled_token_missing :
    ∃ c s₁ s₃, Compilation.create .default (.create .collect false) = .ok c ∧
      Performs .off ((start c).play .off opening).2 (.detourTo "outer" ⟨0⟩) .done s₁ ∧
      Performs .off (s₁.play .off wandering).2 (.returnTo "outer") .done s₃ ∧
      s₃.compilation.readings 3 = [⟨"a", .unknown⟩, ⟨"c", .unknown⟩] := by
  have hr : Reached .off .default _ _ :=
    ⟨.create .collect false, _, rfl, run_play .off (start _) opening⟩
  obtain ⟨s₃, hreturn, -, -, hreadings, -⟩ := returnTo_restores hr (by decide)
    (show Performs .off _ (.detourTo "outer" ⟨0⟩) .done _ from rfl) rfl
    (run_play .off _ wandering) (by decide)
  exact ⟨_, _, s₃, rfl, rfl, hreturn, (hreadings 3).trans (by decide)⟩

end Session

end StackFront
