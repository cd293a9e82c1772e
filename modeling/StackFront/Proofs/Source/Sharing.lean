import StackFront.Source.Token

/-!
# Streams that are shared

A stream can be held by many handles, and each of them can be copied at any time. Whoever pulls, the
stream has one token less for all. That this neither loses a token nor hands one out twice is said
here of several streams at once, each built from a list, and of pulls and copies in any order.

What handles have been used for is written down as a history of `Use`s, and a `Ledger` is kept of it
by somebody who knows nothing of the streams: which lists have been made into streams, which stream
each handle is to, and what each stream has delivered. Streams are numbered there as they are built,
and handles as they are obtained.

* `Does` is what one use makes of the streams and the handles, and `Run` is the history of several.
* `Accounts` is the invariant: a list is what its stream has delivered and what is pending of it.
* `exists_does_iff` says which uses are possible in the terms of the ledger alone.
* `handles_share_streams` is the result.
-/

namespace StackFront

/-- **Streams together with the handles to them**, in the order in which these were obtained. -/
structure Holders where
  streams : Streams
  handles : List Source

namespace Holders

/-- There is no stream yet, and no handle. -/
def start : Holders := ⟨.empty, []⟩

/-- **What can be done with streams**: building one from a list, which gives the first handle to it;
copying a handle, which gives another one to the same stream; and pulling. -/
inductive Use where
  | built (tokens : List Token)
  | copied (i : Nat)
  | pulled (i : Nat) (answer : Option Token)

/-- **What a use makes of streams and handles.** A handle that is used has to be there. -/
inductive Does (s : Holders) : Use → Holders → Prop
  | built (tokens : List Token) :
      Does s (.built tokens)
        ⟨(s.streams.openList tokens).2, s.handles ++ [(s.streams.openList tokens).1]⟩
  | copied {i : Nat} {src : Source} (held : s.handles[i]? = some src) :
      Does s (.copied i) ⟨s.streams, s.handles ++ [src]⟩
  | pulled {i : Nat} {src : Source} (held : s.handles[i]? = some src) :
      Does s (.pulled i (s.streams.next src).1) ⟨(s.streams.next src).2, s.handles⟩

/-- **A history of uses**, which began without streams. -/
inductive Run : List Use → Holders → Prop
  | start : Run [] .start
  | step {uses : List Use} {s s' : Holders} {use : Use} (run : Run uses s) (does : s.Does use s') :
      Run (uses ++ [use]) s'

/-! ### The ledger -/

/-- **What can be known from the uses alone.** -/
structure Ledger where
  /-- The lists that streams have been built from. -/
  built : List (List Token)
  /-- For each handle the number of its stream. -/
  origins : List Nat
  /-- For each stream the tokens that were pulled from it, whatever the handle, in order. -/
  delivered : Nat → List Token

namespace Ledger

/-- Enters one use into the ledger. A copy goes back to the stream of the handle that was copied. -/
def record (l : Ledger) : Use → Ledger
  | .built tokens =>
    { l with built := l.built ++ [tokens], origins := l.origins ++ [l.built.length] }
  | .copied i => { l with origins := l.origins ++ l.origins[i]?.toList }
  | .pulled i answer =>
    { l with delivered := fun k =>
        l.delivered k ++ if l.origins[i]? = some k then answer.toList else [] }

/-- The ledger of a history. -/
def ofUses (uses : List Use) : Ledger := uses.foldl record ⟨[], [], fun _ => []⟩

theorem ofUses_append (uses : List Use) (use : Use) :
    ofUses (uses ++ [use]) = (ofUses uses).record use := by
  unfold ofUses
  rw [List.foldl_append, List.foldl_cons, List.foldl_nil]

/-- Handles that have been entered keep their numbers. -/
theorem origins_prefix_record (l : Ledger) (use : Use) : l.origins <+: (l.record use).origins := by
  cases use with
  | built tokens => exact List.prefix_append _ _
  | copied i => exact List.prefix_append _ _
  | pulled i answer => exact List.prefix_rfl

/-- A handle has the same number for good. -/
theorem getElem?_of_entered {origins later : List Nat} (h : origins <+: later) {i k : Nat}
    (hk : origins[i]? = some k) : later[i]? = some k := by
  obtain ⟨new, rfl⟩ := h
  rw [List.getElem?_append_left (List.getElem?_eq_some_iff.mp hk).1, hk]

/-- **The uses that a ledger allows**: of handles that have been entered, and with the answer that
comes next in the list of their stream. -/
def Allows (l : Ledger) : Use → Prop
  | .built _ => True
  | .copied i => ∃ k, l.origins[i]? = some k
  | .pulled i answer => ∃ k tokens, l.origins[i]? = some k ∧ l.built[k]? = some tokens ∧
      answer = tokens[(l.delivered k).length]?

theorem allows_pulled_iff {l : Ledger} {i k : Nat} {tokens : List Token} {answer : Option Token}
    (hk : l.origins[i]? = some k) (hbuilt : l.built[k]? = some tokens) :
    l.Allows (.pulled i answer) ↔ answer = tokens[(l.delivered k).length]? := by
  constructor
  · rintro ⟨k', tokens', hk', hbuilt', rfl⟩
    obtain rfl := Option.some.inj (hk.symm.trans hk')
    obtain rfl := Option.some.inj (hbuilt.symm.trans hbuilt')
    rfl
  · exact fun ha => ⟨k, tokens, hk, hbuilt, ha⟩

end Ledger

/-! ### The invariant -/

/-- **A ledger accounts for the streams**: the handles are to the streams that it says, and what a
stream has been built from is what has been delivered and what is pending. -/
structure Accounts (l : Ledger) (s : Holders) : Prop where
  handles_eq : s.handles = l.origins.map Source.mk
  size_eq : s.streams.rest.size = l.built.length
  origin_lt : ∀ k ∈ l.origins, k < l.built.length
  eq_append : ∀ k tokens, l.built[k]? = some tokens →
    tokens = l.delivered k ++ s.streams.pending ⟨k⟩
  /-- A stream that is not built has delivered nothing. -/
  delivered_eq_nil : ∀ k, l.built.length ≤ k → l.delivered k = []

variable {l : Ledger} {s s' : Holders} {uses : List Use} {use : Use}

theorem Accounts.getElem?_handles (h : Accounts l s) (i : Nat) :
    s.handles[i]? = l.origins[i]?.map Source.mk := by
  rw [h.handles_eq, List.getElem?_map]

/-- A handle that is held has been entered, with the number of its stream. -/
theorem Accounts.exists_origin (h : Accounts l s) {i : Nat} {src : Source}
    (held : s.handles[i]? = some src) : ∃ k, l.origins[i]? = some k ∧ ⟨k⟩ = src := by
  rw [h.getElem?_handles] at held
  exact Option.map_eq_some_iff.mp held

/-- A handle is to a stream that was built. -/
theorem Accounts.exists_built (h : Accounts l s) {i k : Nat} (hk : l.origins[i]? = some k) :
    ∃ tokens, l.built[k]? = some tokens :=
  ⟨_, List.getElem?_eq_getElem (h.origin_lt k (List.mem_of_getElem? hk))⟩

/-- A list that is made into a stream is pending as a whole. -/
theorem Accounts.built (h : Accounts l s) (tokens : List Token) :
    Accounts (l.record (.built tokens))
      ⟨(s.streams.openList tokens).2, s.handles ++ [(s.streams.openList tokens).1]⟩ := by
  refine ⟨?_, ?_, ?_, ?_, ?_⟩
  · have hsrc : (s.streams.openList tokens).1 = ⟨l.built.length⟩ := by
      rw [← h.size_eq]
      rfl
    show s.handles ++ [_] = (l.origins ++ [_]).map Source.mk
    rw [List.map_append, h.handles_eq, hsrc, List.map_singleton]
  · show (s.streams.rest.push tokens).size = (l.built ++ [tokens]).length
    rw [Array.size_push, List.length_append, h.size_eq, List.length_singleton]
  · intro k hk
    show k < (l.built ++ [tokens]).length
    rw [List.length_append]
    rcases List.mem_append.mp hk with hk | hk
    · exact Nat.lt_succ_of_lt (h.origin_lt k hk)
    · obtain rfl := List.mem_singleton.mp hk
      exact Nat.lt_succ_self _
  · intro k tokens' hk
    replace hk : (l.built ++ [tokens])[k]? = some tokens' := hk
    show tokens' = l.delivered k ++ (s.streams.openList tokens).2.pending ⟨k⟩
    rw [Streams.pending_open, h.size_eq]
    by_cases hlast : k = l.built.length
    · -- nothing has been delivered of the new stream
      subst hlast
      rw [List.getElem?_concat_length] at hk
      obtain rfl := Option.some.inj hk
      rw [if_pos rfl, h.delivered_eq_nil _ (Nat.le_refl _), List.nil_append]
    · have hle : k < l.built.length + 1 := by
        simpa using (List.getElem?_eq_some_iff.mp hk).1
      have hlt : k < l.built.length := by omega
      rw [List.getElem?_append_left hlt] at hk
      rw [if_neg hlast]
      exact h.eq_append k tokens' hk
  · intro k hk
    refine h.delivered_eq_nil k (Nat.le_trans ?_ hk)
    exact List.length_append ▸ Nat.le_add_right _ _

/-- A copy is entered with the stream of the handle that it is a copy of. -/
theorem Accounts.copied (h : Accounts l s) {i k : Nat} (hk : l.origins[i]? = some k) :
    Accounts (l.record (.copied i)) ⟨s.streams, s.handles ++ [⟨k⟩]⟩ := by
  have hrecord : l.record (.copied i) = { l with origins := l.origins ++ [k] } := by
    rw [Ledger.record, hk, Option.toList_some]
  rw [hrecord]
  refine ⟨?_, h.size_eq, ?_, h.eq_append, h.delivered_eq_nil⟩
  · rw [List.map_append, h.handles_eq, List.map_singleton]
  · intro k' hk'
    rcases List.mem_append.mp hk' with hk' | hk'
    · exact h.origin_lt k' hk'
    · obtain rfl := List.mem_singleton.mp hk'
      exact h.origin_lt k' (List.mem_of_getElem? hk)

/-- A token that is pulled moves from what is pending to what has been delivered. -/
theorem Accounts.pulled (h : Accounts l s) {i k : Nat} (hk : l.origins[i]? = some k) :
    Accounts (l.record (.pulled i (s.streams.next ⟨k⟩).1))
      ⟨(s.streams.next ⟨k⟩).2, s.handles⟩ := by
  refine ⟨h.handles_eq, ?_, h.origin_lt, ?_, ?_⟩
  · rw [Streams.size_next]
    exact h.size_eq
  · intro k' tokens hk'
    calc tokens
        = l.delivered k' ++ s.streams.pending ⟨k'⟩ := h.eq_append k' tokens hk'
      _ = l.delivered k' ++ ((if (⟨k⟩ : Source) = ⟨k'⟩ then (s.streams.next ⟨k⟩).1.toList else []) ++
            (s.streams.next ⟨k⟩).2.pending ⟨k'⟩) := by rw [← Streams.pending_eq_next]
      _ = _ := by simp only [Ledger.record, hk, Option.some.injEq, Source.mk.injEq,
          List.append_assoc]
  · intro k' hk'
    have hlt : k < l.built.length := h.origin_lt k (List.mem_of_getElem? hk)
    have hne : l.origins[i]? ≠ some k' := by
      rw [hk]
      exact fun heq => Nat.not_le_of_lt hlt (Option.some.inj heq ▸ hk')
    show l.delivered k' ++ _ = []
    rw [h.delivered_eq_nil k' hk', if_neg hne, List.nil_append]

/-- **A step is accounted for.** -/
theorem Accounts.step (h : Accounts l s) (hs : s.Does use s') : Accounts (l.record use) s' := by
  cases hs with
  | built tokens => exact h.built tokens
  | copied held =>
    obtain ⟨k, hk, rfl⟩ := h.exists_origin held
    exact h.copied hk
  | pulled held =>
    obtain ⟨k, hk, rfl⟩ := h.exists_origin held
    exact h.pulled hk

/-- **The ledger of a history accounts for what it leads to.** -/
theorem Run.accounts (h : Run uses s) : Accounts (Ledger.ofUses uses) s := by
  induction h with
  | start =>
    refine ⟨rfl, rfl, ?_, ?_, fun _ _ => rfl⟩
    · exact fun k hk => by cases hk
    · exact fun k tokens hk => by cases hk
  | step _ does ih =>
    rw [Ledger.ofUses_append]
    exact ih.step does

/-- A pull is answered with what comes next in the list, after what has been delivered. -/
theorem Accounts.next_fst (h : Accounts l s) {k : Nat} {tokens : List Token}
    (hk : l.built[k]? = some tokens) :
    (s.streams.next ⟨k⟩).1 = tokens[(l.delivered k).length]? := by
  rw [Streams.next_fst, h.eq_append k tokens hk, List.getElem?_append_right (Nat.le_refl _),
    Nat.sub_self, List.head?_eq_getElem?]

/-- **What is possible can be told from the ledger.** -/
theorem Accounts.exists_does_iff (h : Accounts l s) :
    (∃ s', s.Does use s') ↔ l.Allows use := by
  cases use with
  | built tokens => exact ⟨fun _ => trivial, fun _ => ⟨_, .built tokens⟩⟩
  | copied i =>
    constructor
    · rintro ⟨s', hs⟩
      cases hs with
      | copied held =>
        obtain ⟨k, hk, -⟩ := h.exists_origin held
        exact ⟨k, hk⟩
    · rintro ⟨k, hk⟩
      have held : s.handles[i]? = some ⟨k⟩ := by
        rw [h.getElem?_handles, hk, Option.map_some]
      exact ⟨_, .copied held⟩
  | pulled i answer =>
    constructor
    · rintro ⟨s', hs⟩
      cases hs with
      | pulled held =>
        obtain ⟨k, hk, rfl⟩ := h.exists_origin held
        obtain ⟨tokens, hbuilt⟩ := h.exists_built hk
        exact ⟨k, tokens, hk, hbuilt, h.next_fst hbuilt⟩
    · rintro ⟨k, tokens, hk, hbuilt, rfl⟩
      have held : s.handles[i]? = some ⟨k⟩ := by
        rw [h.getElem?_handles, hk, Option.map_some]
      rw [← h.next_fst hbuilt]
      exact ⟨_, .pulled held⟩

/-- A history can go on with every use that its ledger allows. -/
theorem exists_run_append (h : ∃ s, Run uses s) (ha : (Ledger.ofUses uses).Allows use) :
    ∃ s, Run (uses ++ [use]) s := by
  obtain ⟨s, hr⟩ := h
  obtain ⟨s', hs⟩ := hr.accounts.exists_does_iff.mpr ha
  exact ⟨s', .step hr hs⟩

/-! ### Other streams -/

/-- **The uses that a stream can notice**: all but the pulls from other streams. -/
def Use.concerns (origins : List Nat) (k : Nat) : Use → Bool
  | .pulled i _ => origins[i]? = some k
  | _ => true

/-- **Ledgers that agree on a stream**: on its tokens, and on what streams and handles there are. -/
structure Ledger.Agree (k : Nat) (l l' : Ledger) : Prop where
  built_eq : l'.built = l.built
  origins_eq : l'.origins = l.origins
  delivered_eq : l'.delivered k = l.delivered k

namespace Ledger

variable {l' : Ledger} {k : Nat} {origins : List Nat}

theorem Agree.record (h : Agree k l l') (use : Use) : Agree k (l.record use) (l'.record use) := by
  obtain ⟨hbuilt, horigins, hdelivered⟩ := h
  cases use with
  | built tokens =>
    exact ⟨by simp only [Ledger.record, hbuilt], by simp only [Ledger.record, hbuilt, horigins],
      hdelivered⟩
  | copied i => exact ⟨hbuilt, by simp only [Ledger.record, horigins], hdelivered⟩
  | pulled i answer =>
    exact ⟨hbuilt, horigins, by simp only [Ledger.record, horigins, hdelivered]⟩

/-- A pull from another stream is not seen. -/
theorem Agree.record_of_not_concerns (h : Agree k l l') (horigins : l.origins <+: origins)
    (hn : use.concerns origins k = false) : Agree k (l.record use) l' := by
  cases use with
  | built tokens => cases hn
  | copied i => cases hn
  | pulled i answer =>
    refine ⟨h.built_eq, h.origins_eq, ?_⟩
    have hne : l.origins[i]? ≠ some k :=
      fun hk => of_decide_eq_false hn (getElem?_of_entered horigins hk)
    show l'.delivered k = l.delivered k ++ _
    rw [if_neg hne, List.append_nil, h.delivered_eq]

/-- What the stream can notice is allowed by both ledgers. -/
theorem Agree.allows (h : Agree k l l') (horigins : l.origins <+: origins)
    (hc : use.concerns origins k = true) (ha : l.Allows use) : l'.Allows use := by
  cases use with
  | built tokens => trivial
  | copied i =>
    obtain ⟨k', hk'⟩ := ha
    exact ⟨k', h.origins_eq ▸ hk'⟩
  | pulled i answer =>
    obtain ⟨k', tokens, hk', hbuilt, hanswer⟩ := ha
    have hk : origins[i]? = some k := of_decide_eq_true hc
    obtain rfl := Option.some.inj ((getElem?_of_entered horigins hk').symm.trans hk)
    refine ⟨k', tokens, ?_, ?_, ?_⟩
    · rw [h.origins_eq, hk']
    · rw [h.built_eq, hbuilt]
    · rw [h.delivered_eq, hanswer]

end Ledger

/-- **The pulls from other streams can be left out.** What remains of the history is a history, with
the same answers. -/
theorem Run.without_others (h : Run uses s) (k : Nat) {origins : List Nat}
    (horigins : (Ledger.ofUses uses).origins <+: origins) :
    (∃ s', Run (uses.filter (Use.concerns origins k)) s') ∧
      Ledger.Agree k (Ledger.ofUses uses)
        (Ledger.ofUses (uses.filter (Use.concerns origins k))) := by
  induction h with
  | start => exact ⟨⟨.start, .start⟩, rfl, rfl, rfl⟩
  | @step uses s s₁ use run does ih =>
    rw [Ledger.ofUses_append] at horigins ⊢
    have hbefore := ((Ledger.ofUses uses).origins_prefix_record use).trans horigins
    obtain ⟨hr, hagree⟩ := ih hbefore
    rw [List.filter_append]
    rcases hc : use.concerns origins k with _ | _
    · rw [List.filter_cons_of_neg (by simp [hc]), List.filter_nil, List.append_nil]
      exact ⟨hr, hagree.record_of_not_concerns hbefore hc⟩
    · -- the use was possible, and so it is after the shorter history
      have hallowed := run.accounts.exists_does_iff.mp ⟨s₁, does⟩
      rw [List.filter_cons_of_pos hc, List.filter_nil, Ledger.ofUses_append]
      exact ⟨exists_run_append hr (hagree.allows hbefore hc hallowed), hagree.record use⟩

/-! ### Sharing -/

/-- **Handles share their stream, without loss or duplication.** Every handle is to a stream that was
built from a list, and can be used to pull; the answer is the token of the list that comes after those
that the stream has delivered, whoever pulled them. So these are always a prefix of the list, and a
handle is told that there are no more only if the whole list has been delivered. What is pulled from
other streams makes no difference: without these pulls the history could have been the same, with the
same answers. -/
theorem handles_share_streams (h : Run uses s) :
    (∀ i < s.handles.length, ∃ k tokens,
      (Ledger.ofUses uses).origins[i]? = some k ∧ (Ledger.ofUses uses).built[k]? = some tokens ∧
      ∀ answer, (∃ s', s.Does (.pulled i answer) s') ↔
        answer = tokens[((Ledger.ofUses uses).delivered k).length]?) ∧
    ∀ k tokens, (Ledger.ofUses uses).built[k]? = some tokens →
      (Ledger.ofUses uses).delivered k <+: tokens ∧
      (∀ i s', (Ledger.ofUses uses).origins[i]? = some k → s.Does (.pulled i none) s' →
        (Ledger.ofUses uses).delivered k = tokens) ∧
      (∃ s', Run (uses.filter (Use.concerns (Ledger.ofUses uses).origins k)) s') ∧
      Ledger.Agree k (Ledger.ofUses uses)
        (Ledger.ofUses (uses.filter (Use.concerns (Ledger.ofUses uses).origins k))) := by
  have haccounts := h.accounts
  constructor
  · intro i hi
    obtain ⟨k, hk, -⟩ := haccounts.exists_origin (List.getElem?_eq_getElem hi)
    obtain ⟨tokens, hbuilt⟩ := haccounts.exists_built hk
    refine ⟨k, tokens, hk, hbuilt, fun answer => ?_⟩
    rw [haccounts.exists_does_iff, Ledger.allows_pulled_iff hk hbuilt]
  · intro k tokens hbuilt
    have hpre : (Ledger.ofUses uses).delivered k <+: tokens :=
      ⟨_, (haccounts.eq_append k tokens hbuilt).symm⟩
    refine ⟨hpre, ?_, h.without_others k List.prefix_rfl⟩
    intro i s' hk hs
    -- a prefix after which there is nothing is the whole list
    have hnone := (Ledger.allows_pulled_iff hk hbuilt).mp (haccounts.exists_does_iff.mp ⟨s', hs⟩)
    exact hpre.eq_of_length_le (List.getElem?_eq_none_iff.mp hnone.symm)

/-- Two streams, the first of them held twice; the second one is pulled from in between. -/
def interleaved : List Use :=
  [.built [⟨"dup", .unknown⟩, ⟨"drop", .unknown⟩], .built [⟨"swap", .unknown⟩], .copied 0,
    .pulled 2 (some ⟨"dup", .unknown⟩), .pulled 1 (some ⟨"swap", .unknown⟩),
    .pulled 0 (some ⟨"drop", .unknown⟩)]

/-- Together the two handles have got the whole list, so that neither gets any more; nor does it
matter that there is a second stream. -/
theorem drained_by_two_handles :
    ∃ s, Run interleaved s ∧
      (Ledger.ofUses interleaved).delivered 0 = [⟨"dup", .unknown⟩, ⟨"drop", .unknown⟩] ∧
      (∃ s', s.Does (.pulled 2 none) s') ∧
      ∃ s', Run (interleaved.filter (Use.concerns [0, 1, 0] 0)) s' := by
  obtain ⟨s, hs⟩ : ∃ s, Run interleaved s := by
    show ∃ s, Run ([] ++ [_] ++ [_] ++ [_] ++ [_] ++ [_] ++ [_]) s
    refine exists_run_append (exists_run_append (exists_run_append (exists_run_append
      (exists_run_append (exists_run_append ⟨_, .start⟩ ?_) ?_) ?_) ?_) ?_) ?_
    · trivial
    · trivial
    · exact ⟨_, rfl⟩
    · exact ⟨_, _, rfl, rfl, rfl⟩
    · exact ⟨_, _, rfl, rfl, rfl⟩
    · exact ⟨_, _, rfl, rfl, rfl⟩
  obtain ⟨hpull, hstreams⟩ := handles_share_streams hs
  have hthree : s.handles = [⟨0⟩, ⟨1⟩, ⟨0⟩] := hs.accounts.handles_eq
  have hnone : ∃ s', s.Does (.pulled 2 none) s' := by
    obtain ⟨k, tokens, hk, hbuilt, hanswer⟩ := hpull 2 (by rw [hthree]; decide)
    cases hk
    cases hbuilt
    exact (hanswer none).mpr rfl
  obtain ⟨s', hs'⟩ := hnone
  obtain ⟨-, hall, hothers, -⟩ := hstreams 0 _ rfl
  exact ⟨s, hs, hall 2 s' rfl hs', ⟨s', hs'⟩, hothers⟩

end Holders

end StackFront
