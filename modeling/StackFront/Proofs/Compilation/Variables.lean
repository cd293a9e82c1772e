import StackFront.Demo.Instruction
import StackFront.Proofs.Compilation.Handles

/-!
# What names of variables mean

Variables are kept in as many tables as there are procedures, and in one more for the program outside
them. Which table a binding goes into is decided by the current procedure, and so is the table that is
asked first when a name is looked up. Unlike memory, a variable can be bound again, and a name that is
bound in a procedure hides the binding outside. The meaning of a name may change, then; but what it is
at any time can be read off the history, which is compared with the tables here.

None of the tables is part of a position. So a binding that is made during a detour is there when the
detour is over, and a procedure that is left keeps its bindings for the next time it is entered.

* `latestBinding` and `meaning` read the history. `scope?` is the table of a reader: of the procedure
  whose body is being read, or of the program outside every procedure.
* `Performs.binding?_eq` says that one step binds a name for one reader, or for none.
* `variables_follow_scope` is the result for look-ups.
-/

namespace StackFront

variable {ω : Type}

/-! ### Bindings in the history -/

/-- **What an event binds a name to** for a reader, if it does. -/
def Event.bound? (e : Event ω) (reader : Option ProcId) (name : String) : Option Binding :=
  match e.command with
  | .declareVariable b =>
    if e.before.compilation.current = reader ∧ b.name = name then some b else none
  | _ => none

theorem Event.bound?_eq_some_iff {e : Event ω} {reader : Option ProcId} {name : String}
    {b : Binding} :
    e.bound? reader name = some b ↔
      e.command = .declareVariable b ∧ b.name = name ∧ e.before.compilation.current = reader := by
  unfold bound?
  split
  · next b' hc =>
    rw [hc, Option.ite_none_right_eq_some, Option.some.injEq, Command.declareVariable.injEq]
    constructor
    · rintro ⟨⟨hreader, hname⟩, rfl⟩
      exact ⟨rfl, hname, hreader⟩
    · rintro ⟨rfl, hname, hreader⟩
      exact ⟨⟨hreader, hname⟩, rfl⟩
  · next hc => exact iff_of_false (by simp) fun h => hc b h.1

/-- **The latest binding of a name** that was made while a reader was current. -/
def latestBinding (events : List (Event ω)) (reader : Option ProcId) (name : String) :
    Option Binding :=
  events.reverse.findSome? fun e => e.bound? reader name

theorem latestBinding_append (events later : List (Event ω)) (reader : Option ProcId)
    (name : String) :
    latestBinding (events ++ later) reader name =
      (latestBinding later reader name).or (latestBinding events reader name) := by
  unfold latestBinding
  rw [List.reverse_append, List.findSome?_append]

theorem latestBinding_singleton (e : Event ω) (reader : Option ProcId) (name : String) :
    latestBinding [e] reader name = e.bound? reader name := by
  show [e].findSome? _ = _
  rw [List.findSome?_singleton]

theorem mem_of_latestBinding {events : List (Event ω)} {reader : Option ProcId} {name : String}
    {b : Binding} (h : latestBinding events reader name = some b) :
    ∃ e ∈ events, e.command = .declareVariable b ∧ b.name = name ∧
      e.before.compilation.current = reader := by
  obtain ⟨e, he, hb⟩ := List.exists_of_findSome?_eq_some h
  exact ⟨e, List.mem_reverse.mp he, Event.bound?_eq_some_iff.mp hb⟩

theorem latestBinding_eq_none {events : List (Event ω)} {reader : Option ProcId} {name : String}
    (h : ∀ e ∈ events, ∀ b, e.command = .declareVariable b → b.name = name →
      e.before.compilation.current ≠ reader) :
    latestBinding events reader name = none := by
  refine List.findSome?_eq_none_iff.mpr fun e he => ?_
  refine Option.eq_none_iff_forall_ne_some.mpr fun b hb => ?_
  obtain ⟨hcommand, hname, hreader⟩ := Event.bound?_eq_some_iff.mp hb
  exact h e (List.mem_reverse.mp he) b hcommand hname hreader

/-- **What a name means to a reader**: what the reader has bound it to latest or, if it has not, what
it was bound to latest outside every procedure. -/
def meaning (events : List (Event ω)) (reader : Option ProcId) (name : String) : Option Binding :=
  (latestBinding events reader name).or (latestBinding events none name)

/-! ### Tables -/

namespace Procedures

variable {ps : Procedures} {id : ProcId}

/-- The variables of the procedure of a handle, if there is such a procedure. -/
def scope? (ps : Procedures) (id : ProcId) : Option (Table String Binding) :=
  ps.table[id.index]?.map Procedure.variables

theorem scope?_of_get {p : Procedure} (hp : ps.get id = .ok p) :
    ps.scope? id = some p.«variables» :=
  map_getElem?_eq_some_iff.mpr ⟨p, hp, rfl⟩

theorem isSome_scope?_iff : (ps.scope? id).isSome = true ↔ ps.Knows id := by
  unfold scope?
  rw [Option.isSome_map, isSome_getElem?]
  rfl

theorem scope?_eq_none (h : ¬ ps.Knows id) : ps.scope? id = none :=
  Option.not_isSome_iff_eq_none.mp fun hs => h (isSome_scope?_iff.mp hs)

/-- A new procedure has a table of its own, with nothing in it. -/
theorem scope?_grown (d : ProcedureDef) (arena : Arena) (id : ProcId) :
    (ps.grown d arena).scope? id = if id = ⟨ps.size⟩ then some ∅ else ps.scope? id := by
  unfold scope?
  rw [map_getElem?_grown]
  simp only [← ProcId.index_inj]
  rfl

/-- A table that is changed shows at its procedure and nowhere else. -/
theorem scope?_update {p : Procedure} (hp : ps.get id = .ok p)
    (change : Table String Binding → Table String Binding) (id' : ProcId) :
    (ps.update id fun p => { p with «variables» := change p.«variables» }).scope? id' =
      if id = id' then some (change p.«variables») else ps.scope? id' := by
  unfold scope?
  rw [map_getElem?_update_of_get Procedure.variables hp]
  simp only [ProcId.index_inj]

end Procedures

namespace Compilation

variable {c : Compilation ω} {name : String}

/-- **The variables of a reader**, if the reader is known. -/
def scope? (c : Compilation ω) : Option ProcId → Option (Table String Binding)
  | none => some c.variables
  | some id => c.procs.scope? id

/-- The binding of a name in the table of a reader. -/
def binding? (c : Compilation ω) (reader : Option ProcId) (name : String) : Option Binding :=
  (c.scope? reader).bind (·.get? name)

/-- **A look-up** asks the reader, who has to be known, and then the program. -/
theorem findVariable_eq_ok_iff {r : Option Binding} :
    c.findVariable name = .ok r ↔
      (c.scope? c.current).isSome = true ∧
        r = (c.binding? c.current name).or (c.binding? none name) := by
  unfold findVariable
  rcases c.current with _ | id
  · rw [Option.or_self]
    simp only [scope?, Option.isSome_some, true_and]
    exact ok_eq_ok_iff
  · show (c.procs.get id).map _ = _ ↔ (c.procs.scope? id).isSome = true ∧ _
    by_cases hk : c.procs.Knows id
    · obtain ⟨p, hp⟩ := hk.exists_get
      have hscope : c.scope? (some id) = some p.«variables» := Procedures.scope?_of_get hp
      simp only [hp, binding?, hscope, Procedures.isSome_scope?_iff, hk, true_and]
      exact ok_eq_ok_iff
    · -- the handle is unknown, and the look-up a fault
      rw [Procedures.get_of_not_knows hk, Procedures.isSome_scope?_iff]
      simp [hk, Except.map]

end Compilation

/-! ### What a step binds -/

namespace Session

variable [Opcode ω] {f : Log.Filter} {settings : Settings} {s s' : Session ω}
  {command : Command ω} {reply : Reply} {events : List (Event ω)} {reader : Option ProcId}
  {name : String}

/-- No command but the two that say so writes the tables of variables. A position that is restored
has none of them in it. -/
theorem Performs.scope?_eq (h : Performs f s command reply s')
    (hv : ∀ b, command ≠ .declareVariable b)
    (hp : ∀ t inputs outputs block, command ≠ .declareProcedure t inputs outputs block)
    (reader : Option ProcId) : s'.compilation.scope? reader = s.compilation.scope? reader := by
  cases reader with
  | none =>
    refine congrArg some (h.keeps .outerVariables ?_)
    cases command with
    | declareVariable b => exact absurd rfl (hv b)
    | _ => simp [Command.writes]
  | some id =>
    refine h.rewrites.map_getElem?_eq hp (fun _ _ _ => rfl) ?_ (fun _ _ => rfl) id.index
    rintro ⟨b, rfl⟩
    exact absurd rfl (hv b)

/-- The table of a new procedure has nothing in it, and no other is changed. -/
theorem Performs.binding?_declareProcedure {t : Token} {inputs outputs : List ValueType}
    {block : Block} (h : Performs f s (.declareProcedure t inputs outputs block) reply s')
    (reader : Option ProcId) (name : String) :
    s'.compilation.binding? reader name = s.compilation.binding? reader name := by
  cases reader with
  | none =>
    have houter : s'.compilation.variables = s.compilation.variables :=
      h.keeps .outerVariables (by simp [Command.writes])
    show s'.compilation.variables.get? name = s.compilation.variables.get? name
    rw [houter]
  | some id =>
    have hrewrites := h.rewrites
    show (s'.compilation.procs.scope? id).bind _ = (s.compilation.procs.scope? id).bind _
    generalize s'.compilation.procs = procs at hrewrites ⊢
    cases hrewrites with
    | unchanged => rfl
    | defined d =>
      rw [Procedures.scope?_grown]
      split
      · next hid =>
        -- the handle is new, and was unknown before
        have hnew : ¬ s.compilation.procs.Knows ⟨s.compilation.procs.size⟩ := Nat.lt_irrefl _
        rw [hid, Procedures.scope?_eq_none hnew]
        rfl
      · rfl

/-- **A declaration** shows in the table of the current reader, at its name. -/
theorem Performs.binding?_declareVariable {b : Binding}
    (h : Performs f s (.declareVariable b) reply s') (reader : Option ProcId) (name : String) :
    s'.compilation.binding? reader name =
      if s.compilation.current = reader ∧ b.name = name then some b
      else s.compilation.binding? reader name := by
  obtain ⟨c, hr, hs⟩ := Step.exists_of_bind_pure h.act
  -- a table into which the binding is put answers with it at its name
  have hinsert (table : Table String Binding) :
      (table.insert b.name b).get? name = if b.name = name then some b else table.get? name :=
    Table.get?_insert table b.name b name
  rcases Compilation.declareVariable_eq_ok_iff.mp hr with ⟨hcur, rfl⟩ | ⟨id, p, hcur, hp, rfl⟩
  · cases hs
    rw [hcur]
    cases reader with
    | none =>
      simp only [true_and]
      exact hinsert s.compilation.variables
    | some id' => rfl
  · cases hs
    rw [hcur]
    cases reader with
    | none => rfl
    | some id' =>
      show ((s.compilation.procs.update id _).scope? id').bind _ =
        if _ then _ else (s.compilation.procs.scope? id').bind _
      rw [Procedures.scope?_update hp (·.insert b.name b)]
      by_cases hid : id = id'
      · subst hid
        rw [if_pos rfl, Procedures.scope?_of_get hp]
        simp only [true_and]
        exact hinsert p.«variables»
      · rw [if_neg hid, if_neg fun h => hid (Option.some.inj h.1)]

/-- **A step binds one name for one reader**, if any. Whatever else there is stays bound. -/
theorem Performs.binding?_eq (h : Performs f s command reply s') (reader : Option ProcId)
    (name : String) :
    s'.compilation.binding? reader name =
      (Event.bound? ⟨s, command, reply⟩ reader name).or
        (s.compilation.binding? reader name) := by
  cases command with
  | declareVariable b =>
    rw [h.binding?_declareVariable]
    simp only [Event.bound?]
    split <;> rfl
  | declareProcedure t inputs outputs block =>
    exact (h.binding?_declareProcedure reader name).trans Option.none_or.symm
  | _ =>
    show ((_ : Option _).bind _) = none.or (((_ : Option _)).bind _)
    rw [h.scope?_eq (by simp) (by simp), Option.none_or]

/-- **The tables are read off the history**: what is bound for a reader was bound latest. -/
theorem binding?_eq_latest (h : Reached f settings events s) (reader : Option ProcId)
    (name : String) :
    s.compilation.binding? reader name = latestBinding events reader name := by
  refine h.induction (P := fun events s =>
    s.compilation.binding? reader name = latestBinding events reader name) ?_ ?_
  · intro reporter c hc
    obtain ⟨arena, -, rfl⟩ := Compilation.create_eq_ok_iff.mp hc
    -- there are no procedures yet, and nothing is bound outside
    cases reader <;> rfl
  · intro events s command reply s' _ ih hs
    rw [hs.binding?_eq, ih, latestBinding_append, latestBinding_singleton]

/-! ### Who is current -/

/-- The procedure that is current has been given out, if those that were entered had been. -/
theorem current_given (h : Reached f settings events s) (he : EntersDefined events) {id : ProcId}
    (hc : s.compilation.current = some id) : GivesProcedure events id := by
  refine h.induction (P := fun events s => EntersDefined events →
    ∀ id, s.compilation.current = some id → GivesProcedure events id) ?_ ?_ he id hc
  · intro reporter c hc _ id hcur
    obtain ⟨arena, -, rfl⟩ := Compilation.create_eq_ok_iff.mp hc
    cases hcur
  · intro events s command reply s' _ ih hs he id hcur
    obtain ⟨hbefore, henters⟩ := entersDefined_append_iff.mp he
    refine givesProcedure_append_iff.mpr (.inl ?_)
    rcases hs.current_cases with heq | hnone | ⟨id', rfl, hid⟩
    · exact ih hbefore id (heq ▸ hcur)
    · rw [hnone] at hcur
      cases hcur
    · obtain rfl := Option.some.inj (hid.symm.trans hcur)
      exact henters id' rfl

/-- **A look-up answers with the meaning of the name**, as long as the current procedure has been
given out. -/
theorem findVariable_eq_meaning (h : Reached f settings events s)
    (hc : ∀ id, s.compilation.current = some id → GivesProcedure events id) (name : String) :
    s.compilation.findVariable name = .ok (meaning events s.compilation.current name) := by
  refine Compilation.findVariable_eq_ok_iff.mpr ⟨?_, ?_⟩
  · rcases hcur : s.compilation.current with _ | id
    · rfl
    · show (s.compilation.procs.scope? id).isSome = true
      rw [Procedures.isSome_scope?_iff, (knows_iff_gives h).2]
      exact hc id hcur
  · rw [binding?_eq_latest h, binding?_eq_latest h, meaning]

/-! ### Look-ups -/

/-- **Look-ups of variables follow scope and recency.** A name stands for what the current reader has
bound it to latest or else for what it was bound to latest outside every procedure; if there is
neither, it stands for nothing. So it never stands for a binding that another procedure has made, and
not outside for one that any has made. And none is lost: until the name is bound again, by the same
reader or outside, it stands for the same whenever the reader is current, whatever has been entered
and left, and whatever positions have been restored. -/
theorem variables_follow_scope (h : Reached f settings events s) (he : EntersDefined events) :
    (∀ name, s.compilation.findVariable name = .ok (meaning events s.compilation.current name)) ∧
    (∀ name b, s.compilation.findVariable name = .ok (some b) →
      ∃ e ∈ events, e.command = .declareVariable b ∧ b.name = name ∧
        (e.before.compilation.current = s.compilation.current ∨
          e.before.compilation.current = none)) ∧
    ∀ name later s', Run f s later s' → s'.compilation.current = s.compilation.current →
      (∀ e ∈ later, ∀ b, e.command = .declareVariable b → b.name = name →
        e.before.compilation.current ≠ s.compilation.current ∧
          e.before.compilation.current ≠ none) →
      s'.compilation.findVariable name = s.compilation.findVariable name := by
  have hgiven : ∀ id, s.compilation.current = some id → GivesProcedure events id :=
    fun id hcur => current_given h he hcur
  have hfind := findVariable_eq_meaning h hgiven
  refine ⟨hfind, ?_, ?_⟩
  · intro name b hb
    rw [hfind] at hb
    rcases Option.or_eq_some_iff.mp (Except.ok.inj hb) with hown | ⟨-, houter⟩
    · obtain ⟨e, hmem, hcommand, hname, hreader⟩ := mem_of_latestBinding hown
      exact ⟨e, hmem, hcommand, hname, .inl hreader⟩
    · obtain ⟨e, hmem, hcommand, hname, hreader⟩ := mem_of_latestBinding houter
      exact ⟨e, hmem, hcommand, hname, .inr hreader⟩
  · intro name later s' hrun hcur hlater
    have hgiven' : ∀ id, s'.compilation.current = some id → GivesProcedure (events ++ later) id := by
      intro id hid
      obtain ⟨e, hmem, hdefines⟩ := hgiven id (hcur ▸ hid)
      exact ⟨e, List.mem_append_left _ hmem, hdefines⟩
    -- nothing that has been done since is a binding of the name for either reader
    have hown : latestBinding later s.compilation.current name = none :=
      latestBinding_eq_none fun e hmem b hcommand hname => (hlater e hmem b hcommand hname).1
    have houter : latestBinding later none name = none :=
      latestBinding_eq_none fun e hmem b hcommand hname => (hlater e hmem b hcommand hname).2
    rw [findVariable_eq_meaning (h.append hrun) hgiven', hfind, hcur, meaning, meaning,
      latestBinding_append, latestBinding_append, hown, houter, Option.none_or, Option.none_or]

/-- There is an `x` outside, and another one has been bound in `main`, during a detour. -/
def shadowed : List (Command Demo.Instruction) :=
  [.declareVariable ⟨"x", .int⟩, .declareProcedure ⟨"main", .unknown⟩ [] [] ⟨.procedure, 0, none⟩,
    .enterBody ⟨0⟩, .keepPosition "here", .declareVariable ⟨"x", .bool⟩]

/-- The detour is over; the body is left, for a `y` to be bound outside, and entered again. -/
def reentered : List (Command Demo.Instruction) :=
  [.returnTo "here", .leaveBody, .declareVariable ⟨"y", .ptr⟩, .enterBody ⟨0⟩]

/-- `main` is defined before its body is entered. -/
theorem entersDefined_shadowed {c : Compilation Demo.Instruction}
    (hc : Compilation.create .default (.create .collect false) = .ok c) :
    EntersDefined ((start c).play .off shadowed).1 := by
  cases hc
  show EntersDefined ([] ++ [_] ++ [_] ++ [_] ++ [_] ++ [_])
  simp only [entersDefined_append_iff]
  refine ⟨⟨⟨⟨⟨.nil, ?_⟩, ?_⟩, ?_⟩, ?_⟩, ?_⟩
  · exact fun id h => by cases h
  · exact fun id h => by cases h
  · intro id h
    cases h
    exact ⟨_, .tail _ (.head _), rfl, rfl⟩
  · exact fun id h => by cases h
  · exact fun id h => by cases h

/-- The `x` of `main` hides the one outside, and is still there after the detour and on the second
visit. -/
theorem x_of_main_stays :
    ∃ c, Compilation.create .default (.create .collect false) = .ok c ∧
      EntersDefined ((start c).play .off shadowed).1 ∧
      ((start c).play .off shadowed).2.compilation.findVariable "x" =
        .ok (some ⟨"x", .bool⟩) ∧
      (((start c).play .off shadowed).2.play .off reentered).2.compilation.findVariable "x" =
        .ok (some ⟨"x", .bool⟩) := by
  obtain ⟨c, hc⟩ : ∃ c : Compilation Demo.Instruction,
      Compilation.create .default (.create .collect false) = .ok c := ⟨_, rfl⟩
  have hr : Reached .off .default ((start c).play .off shadowed).1
      ((start c).play .off shadowed).2 :=
    ⟨.create .collect false, c, hc, run_play .off (start c) shadowed⟩
  have henters := entersDefined_shadowed hc
  obtain ⟨hmeaning, -, hstays⟩ := variables_follow_scope hr henters
  have hfind : ((start c).play .off shadowed).2.compilation.findVariable "x" =
      .ok (some ⟨"x", .bool⟩) := by
    rw [hmeaning "x"]
    cases hc
    rfl
  refine ⟨c, hc, henters, hfind, ?_⟩
  refine (hstays "x" _ _ (run_play .off _ reentered) ?_ ?_).trans hfind
  · cases hc
    rfl
  · -- the one variable that is bound later has another name
    cases hc
    show ∀ e ∈ [_, _, _, _], _
    simp only [List.forall_mem_cons]
    refine ⟨?_, ?_, ?_, ?_, ?_⟩
    · exact fun b h => by cases h
    · exact fun b h => by cases h
    · intro b h hname
      cases h
      exact absurd hname (by decide)
    · exact fun b h => by cases h
    · exact fun e he => by cases he

end Session

end StackFront
