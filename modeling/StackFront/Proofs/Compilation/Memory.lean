import StackFront.Demo.Instruction
import StackFront.Proofs.Compilation.Frame
import StackFront.Proofs.Procedure.Reachability

/-!
# What names of memory mean

A name of memory is looked up in the arena of the current procedure first, and then in the global
one. Both arenas grow over time, in any order and from other places than the one that looks. A
meaning that a name once had can still not be lost, for two reasons: the arena of a procedure takes
no name that is global at the time, so that a global region is not hidden later on; and no arena
takes a name twice.

* `arena?` is the arena of a reader: of the procedure whose body is being read, or of the program
  outside every procedure. `Allocates` is what one step makes of all arenas.
* `Performs.region?_cases` draws from it what matters here: the region of a name is the same after a
  step as before, or it is a new one, where neither the reader nor the program had one.
* `Arena.Belongs` is what holds of every arena along a history; it tells the regions of different
  arenas apart.
* `memory_names_stand` is the result for look-ups.
-/

namespace StackFront

/-! ### Arenas -/

namespace Arena

/-- **An arena and its regions belong to a reader.** -/
structure Belongs (reader : Option ProcId) (alignment : UInt64) (a : Arena) : Prop where
  owner_eq : a.owner = reader.elim .global .procedure
  alignment_eq : a.alignment = alignment
  /-- No region is that of another arena. -/
  region_owner : ∀ n m, a.get? n = some m → m.owner = a.owner

variable {reader : Option ProcId} {alignment : UInt64} {a : Arena}

theorem Belongs.of_create (h : create (reader.elim .global .procedure) alignment = .ok a) :
    a.Belongs reader alignment := by
  obtain ⟨-, rfl⟩ := create_eq_ok_iff.mp h
  refine ⟨rfl, rfl, ?_⟩
  intro n m hm
  cases hm

theorem Belongs.extended (h : a.Belongs reader alignment) (name : String) (reserved : UInt64) :
    (a.extended name reserved).Belongs reader alignment := by
  refine ⟨h.owner_eq, h.alignment_eq, ?_⟩
  intro n m hm
  rw [get?_extended] at hm
  split at hm
  · obtain rfl := Option.some.inj hm
    rfl
  · exact h.region_owner n m hm

end Arena

namespace Procedures

variable {ps : Procedures} {id : ProcId}

/-- The arena of the procedure of a handle, if there is such a procedure. -/
def arena? (ps : Procedures) (id : ProcId) : Option Arena :=
  ps.table[id.index]?.map Procedure.arena

theorem arena?_of_get {p : Procedure} (hp : ps.get id = .ok p) : ps.arena? id = some p.arena :=
  map_getElem?_eq_some_iff.mpr ⟨p, hp, rfl⟩

theorem exists_of_arena? {a : Arena} (h : ps.arena? id = some a) :
    ∃ p, ps.get id = .ok p ∧ p.arena = a :=
  map_getElem?_eq_some_iff.mp h

theorem arena?_grown (d : ProcedureDef) (arena : Arena) (id : ProcId) :
    (ps.grown d arena).arena? id = if id = ⟨ps.size⟩ then some arena else ps.arena? id := by
  unfold arena?
  rw [map_getElem?_grown]
  simp only [← ProcId.index_inj]
  rfl

/-- A new arena shows at its procedure and nowhere else. -/
theorem arena?_allocate {p : Procedure} (hp : ps.get id = .ok p) (arena : Arena) (id' : ProcId) :
    (ps.update id fun p' => { p' with arena }).arena? id' =
      if id' = id then some arena else ps.arena? id' := by
  unfold arena?
  rw [map_getElem?_update_of_get Procedure.arena hp]
  simp only [ProcId.index_inj, eq_comm (a := id)]

end Procedures

/-- What is free as a name is not that of a global region. -/
theorem Globals.not_memory_of_free {g : Globals} {name : String} (h : g.holds name = false) :
    g.memory.contains name = false := by
  simp only [holds, Bool.or_eq_false_iff] at h
  exact h.1.1.1.2

/-! ### What a step makes of the arenas -/

variable {ω : Type}

namespace Compilation

variable {c c' : Compilation ω} {reader : Option ProcId} {name : String}

/-- **The arena of a reader**, if the reader is known. Outside every procedure it is the global
one. -/
def arena? (c : Compilation ω) : Option ProcId → Option Arena
  | none => some c.globals.memory
  | some id => c.procs.arena? id

/-- The region of a name in the arena of a reader. -/
def region? (c : Compilation ω) (reader : Option ProcId) (name : String) : Option Region :=
  (c.arena? reader).bind (·.get? name)

/-- A procedure without a handle has no arena. -/
theorem arena?_new (c : Compilation ω) : c.arena? (some ⟨c.procs.size⟩) = none := by
  show (c.procs.table[c.procs.table.size]?).map Procedure.arena = none
  rw [Array.getElem?_size]
  rfl

/-- **A look-up** asks the reader, who has to be known, and then the program. -/
theorem findMemory_eq_ok_iff {r : Option Region} :
    c.findMemory name = .ok r ↔
      (c.arena? c.current).isSome = true ∧
        r = (c.region? c.current name).or (c.region? none name) := by
  unfold findMemory
  rcases c.current with _ | id
  · rw [Option.or_self]
    simp only [arena?, Option.isSome_some, true_and]
    exact ok_eq_ok_iff
  · show (c.procs.get id).map _ = _ ↔ _
    rcases hp : c.procs.get id with e | p
    · -- the handle is unknown, and the look-up a fault
      have hnone : c.arena? (some id) = none := by
        refine Option.eq_none_iff_forall_ne_some.mpr fun a ha => ?_
        obtain ⟨p, hp', -⟩ := Procedures.exists_of_arena? ha
        rw [hp] at hp'
        cases hp'
      simp [hnone, Except.map]
    · have hsome : c.arena? (some id) = some p.arena := Procedures.arena?_of_get hp
      simp only [hsome, region?, Option.isSome_some, true_and]
      exact ok_eq_ok_iff

end Compilation

namespace Session

/-- **What a step makes of the arenas**: nothing, or a new one, or one with another region. -/
inductive Allocates (c : Compilation ω) : Command ω → Reply → Compilation ω → Prop
  /-- No arena changes; memory that is asked for is refused. -/
  | kept {command : Command ω} {reply : Reply} {c' : Compilation ω}
      (vain : ∀ t size, command = .declareMemory t size → ∃ e, reply = .refused e)
      (arena?_eq : ∀ reader, c'.arena? reader = c.arena? reader) :
      Allocates c command reply c'
  /-- A new procedure has an arena of its own. -/
  | opened {t : Token} {inputs outputs : List ValueType} {block : Block} {reply : Reply}
      {c' : Compilation ω} {arena : Arena}
      (created : Arena.create (.procedure ⟨c.procs.size⟩) c.procs.alignment = .ok arena)
      (arena?_eq : ∀ reader, c'.arena? reader =
        if reader = some ⟨c.procs.size⟩ then some arena else c.arena? reader) :
      Allocates c (.declareProcedure t inputs outputs block) reply c'
  /-- The current reader is given a region, under a name that is free where it looks. -/
  | extended {t : Token} {size reserved : UInt64} {arena : Arena} {c' : Compilation ω}
      (found : c.arena? c.current = some arena)
      (free : c.globals.vet t.text .memory = .ok ()) (new : arena.contains t.text = false)
      (room : arena.advance size = .ok reserved)
      (arena?_eq : ∀ reader, c'.arena? reader =
        if reader = c.current then some (arena.extended t.text reserved) else c.arena? reader) :
      Allocates c (.declareMemory t size) (.region (arena.nextRegion t.text)) c'

variable [Opcode ω] {f : Log.Filter} {settings : Settings} {s s' : Session ω}
  {command : Command ω} {reply : Reply} {events : List (Event ω)} {reader : Option ProcId}
  {name : String} {region : Region}

/-- No command but the two that say so writes the arenas. -/
theorem Performs.arena?_eq (h : Performs f s command reply s')
    (hm : ∀ t size, command ≠ .declareMemory t size)
    (hp : ∀ t inputs outputs block, command ≠ .declareProcedure t inputs outputs block)
    (reader : Option ProcId) : s'.compilation.arena? reader = s.compilation.arena? reader := by
  cases reader with
  | none =>
    have hgrants := h.grants
    show some s'.compilation.globals.memory = some s.compilation.globals.memory
    generalize s'.compilation.globals = globals at hgrants ⊢
    cases hgrants with
    | memory => exact absurd rfl (hm _ _)
    | _ => rfl
  | some id =>
    -- neither variables nor calls are part of an arena
    refine h.rewrites.map_getElem?_eq hp ?_ (fun _ _ _ => rfl) (fun _ _ => rfl) id.index
    rintro ⟨t, size, rfl⟩
    exact absurd rfl (hm t size)

/-- **A step opens an arena, or extends one, or leaves all as they are.** -/
theorem Performs.allocates (h : Performs f s command reply s') :
    Allocates s.compilation command reply s'.compilation := by
  cases command with
  | declareMemory t size =>
    obtain ⟨r, hr, hs⟩ := Step.exists_of_bind_pure h.act
    rcases Compilation.declareMemory_eq_ok_iff.mp hr with
      ⟨cause, -, rfl⟩ | ⟨hfree, ⟨hcur, hg⟩ | ⟨id, hcur, hl⟩⟩
    · cases hs
      exact .kept (fun _ _ _ => ⟨_, rfl⟩) fun _ => rfl
    · -- outside every procedure the check of the global names has looked at the arena as well
      obtain ⟨reserved, hroom, rfl⟩ := Compilation.allocateGlobal_eq_ok_iff.mp hg
      cases hs
      have hfound : s.compilation.arena? s.compilation.current =
          some s.compilation.globals.memory := by rw [hcur]; rfl
      have hnew : s.compilation.globals.memory.contains t.text = false :=
        Globals.not_memory_of_free (Globals.vet_eq_ok_iff.mp hfree).1
      refine .extended hfound hfree hnew hroom fun reader => ?_
      rw [hcur]
      cases reader <;> rfl
    · obtain ⟨p, hp, ⟨hc, rfl⟩ | ⟨hnew, reserved, hroom, rfl⟩⟩ :=
        Compilation.allocateIn_eq_ok_iff.mp hl
      · cases hs
        exact .kept (fun _ _ _ => ⟨_, rfl⟩) fun _ => rfl
      · cases hs
        have hfound : s.compilation.arena? s.compilation.current = some p.arena := by
          rw [hcur]
          exact Procedures.arena?_of_get hp
        refine .extended hfound hfree hnew hroom fun reader => ?_
        rw [hcur]
        cases reader with
        | none => rfl
        | some id' =>
          refine (Procedures.arena?_allocate hp _ id').trans ?_
          simp only [Option.some.injEq]
          rfl
  | declareProcedure t inputs outputs block =>
    obtain ⟨r, hr, hs⟩ := Step.exists_of_bind_pure h.act
    rcases Compilation.declareProcedure_eq_ok_iff.mp hr with
      ⟨cause, -, rfl⟩ | ⟨-, id, c, hc, rfl⟩
    · cases hs
      exact .kept (fun _ _ h => by cases h) fun _ => rfl
    · obtain ⟨d, arena, types, ha, rfl⟩ := Compilation.commitProcedure_of_ok hc
      cases hs
      refine .opened ha fun reader => ?_
      cases reader with
      | none =>
        -- the procedure may have been given a global name, but no global memory
        refine congrArg some ?_
        show (if _ then _ else _ : Globals).memory = _
        split <;> rfl
      | some id' =>
        refine (Procedures.arena?_grown d arena id').trans ?_
        simp only [Option.some.injEq]
        rfl
  | _ => exact .kept (fun _ _ h => by cases h) (h.arena?_eq (by simp) (by simp))

/-! ### What a name stands for -/

/-- **The region of a name stays the same, or is new.** A new one is that of the current reader, and
neither this reader nor the program had one of that name. -/
theorem Performs.region?_cases (h : Performs f s command reply s') (reader : Option ProcId)
    (name : String) :
    s'.compilation.region? reader name = s.compilation.region? reader name ∨
      (reader = s.compilation.current ∧ s.compilation.region? reader name = none ∧
        s.compilation.region? none name = none ∧ ∃ t size region,
          command = .declareMemory t size ∧ t.text = name ∧ reply = .region region ∧
          s'.compilation.region? reader name = some region) := by
  have hallocates := h.allocates
  generalize s'.compilation = c' at hallocates ⊢
  unfold Compilation.region?
  cases hallocates with
  | kept vain arena?_eq => exact .inl (by rw [arena?_eq])
  | opened created arena?_eq =>
    -- the new arena is empty, and its reader had none before
    refine .inl ?_
    rw [arena?_eq]
    split
    · next hreader =>
      obtain ⟨-, rfl⟩ := Arena.create_eq_ok_iff.mp created
      rw [hreader, Compilation.arena?_new]
      rfl
    · rfl
  | @extended t size reserved arena c' found free new room arena?_eq =>
    rw [arena?_eq]
    split
    · next hreader =>
      subst hreader
      rw [found, Option.bind_some, Option.bind_some, Arena.get?_extended]
      split
      · next hname =>
        -- the checks have found the name free, in the arena of the reader and in the global one
        subst hname
        have hnew : arena.get? t.text = none := Table.get?_eq_none_iff.mpr new
        have hfree : s.compilation.globals.memory.get? t.text = none := by
          have hholds := (Globals.vet_eq_ok_iff.mp free).1
          exact Table.get?_eq_none_iff.mpr (Globals.not_memory_of_free hholds)
        exact .inr ⟨rfl, hnew, hfree, t, size, _, rfl, rfl, rfl, rfl⟩
      · exact .inl rfl
    · exact .inl rfl

/-- A reader that is known stays known. -/
theorem Performs.knows_reader (h : Performs f s command reply s')
    (hr : (s.compilation.arena? reader).isSome = true) :
    (s'.compilation.arena? reader).isSome = true := by
  have hallocates := h.allocates
  generalize s'.compilation = c' at hallocates ⊢
  cases hallocates with
  | kept vain arena?_eq => rwa [arena?_eq]
  | opened created arena?_eq =>
    rw [arena?_eq]
    split
    · rfl
    · exact hr
  | extended found free new room arena?_eq =>
    rw [arena?_eq]
    split
    · rfl
    · exact hr

/-- **What a name stands for to a reader**, in its own arena or else in the global one. -/
def Stands (c : Compilation ω) (reader : Option ProcId) (name : String) (region : Region) : Prop :=
  (c.arena? reader).isSome = true ∧
    (c.region? reader name).or (c.region? none name) = some region

omit [Opcode ω] in
theorem findMemory_eq_some_iff {c : Compilation ω} :
    c.findMemory name = .ok (some region) ↔ Stands c c.current name region := by
  rw [Compilation.findMemory_eq_ok_iff, Stands, eq_comm (a := some region)]

/-- **A step takes no name its meaning**, to whatever reader. -/
theorem Performs.stands (h : Performs f s command reply s')
    (hr : Stands s.compilation reader name region) :
    Stands s'.compilation reader name region := by
  obtain ⟨hknown, hregion⟩ := hr
  refine ⟨h.knows_reader hknown, ?_⟩
  -- a region that there is does not change, be it the reader's own or a global one
  have hkeep : ∀ reader' m, s.compilation.region? reader' name = some m →
      s'.compilation.region? reader' name = some m := by
    intro reader' m hm
    rcases h.region?_cases reader' name with heq | ⟨-, hnone, -⟩
    · rw [heq, hm]
    · rw [hnone] at hm
      cases hm
  rcases Option.or_eq_some_iff.mp hregion with hown | ⟨hnone, hglobal⟩
  · rw [hkeep reader region hown]
    rfl
  · -- the reader takes no name that is global, and so cannot hide the region
    have hstill : s'.compilation.region? reader name = none := by
      rcases h.region?_cases reader name with heq | ⟨-, -, hfree, -⟩
      · rw [heq, hnone]
      · rw [hfree] at hglobal
        cases hglobal
    rw [hstill, hkeep none region hglobal]
    rfl

theorem Run.stands (h : Run f s events s') (hr : Stands s.compilation reader name region) :
    Stands s'.compilation reader name region := by
  induction h with
  | start => exact hr
  | step _ hs ih => exact hs.stands ih

/-- A region that is handed out is the next one in the arena of the current reader. -/
theorem Performs.handed_out {t : Token} {size : UInt64}
    (h : Performs f s (.declareMemory t size) (.region region) s') :
    ∃ a reserved, s.compilation.arena? s.compilation.current = some a ∧
      region = a.nextRegion t.text ∧
      s'.compilation.arena? s.compilation.current = some (a.extended t.text reserved) := by
  have hallocates := h.allocates
  generalize s'.compilation = c' at hallocates ⊢
  generalize hcommand : Command.declareMemory t size = command at hallocates
  generalize hreply : Reply.region region = reply at hallocates
  cases hallocates with
  | kept vain arena?_eq =>
    obtain ⟨e, he⟩ := vain t size hcommand.symm
    cases hreply.trans he
  | opened => cases hcommand
  | @extended t size reserved a c' found free new room arena?_eq =>
    cases hcommand
    cases hreply
    exact ⟨a, reserved, found, rfl, (arena?_eq s.compilation.current).trans (if_pos rfl)⟩

/-- **A region that has been handed out** is what its name stands for. -/
theorem Performs.stands_new {t : Token} {size : UInt64}
    (h : Performs f s (.declareMemory t size) (.region region) s') :
    Stands s'.compilation s.compilation.current t.text region := by
  obtain ⟨a, reserved, -, rfl, ha⟩ := h.handed_out
  have hregion : s'.compilation.region? s.compilation.current t.text =
      some (a.nextRegion t.text) := by
    rw [Compilation.region?, ha, Option.bind_some, Arena.get?_extended, if_pos rfl]
  refine ⟨by rw [ha]; rfl, ?_⟩
  rw [hregion]
  rfl

/-! ### Whose regions they are -/

/-- **Every arena belongs to its reader.** The alignment is that of the settings. -/
structure Housed (alignment : UInt64) (c : Compilation ω) : Prop where
  alignment_eq : c.procs.alignment = alignment
  belongs : ∀ reader a, c.arena? reader = some a → a.Belongs reader alignment

theorem Performs.alignment_eq (h : Performs f s command reply s') :
    s'.compilation.procs.alignment = s.compilation.procs.alignment := by
  have hrewrites := h.rewrites
  generalize s'.compilation.procs = procs at hrewrites ⊢
  cases hrewrites with
  | unchanged | defined | allocated | bound => rfl
  | used hu =>
    rcases Procedures.addCall_eq_ok_iff.mp hu with ⟨-, rfl⟩ | ⟨pid, p, -, -, rfl⟩ <;> rfl

theorem Housed.step {alignment : UInt64} (h : Housed alignment s.compilation)
    (hs : Performs f s command reply s') : Housed alignment s'.compilation := by
  refine ⟨hs.alignment_eq.trans h.alignment_eq, fun reader a ha => ?_⟩
  have hallocates := hs.allocates
  generalize s'.compilation = c' at hallocates ha
  cases hallocates with
  | kept vain arena?_eq =>
    rw [arena?_eq] at ha
    exact h.belongs reader a ha
  | opened created arena?_eq =>
    rw [arena?_eq] at ha
    split at ha
    · next hreader =>
      obtain rfl := Option.some.inj ha
      rw [h.alignment_eq] at created
      rw [hreader]
      exact .of_create created
    · exact h.belongs reader a ha
  | extended found free new room arena?_eq =>
    rw [arena?_eq] at ha
    split at ha
    · next hreader =>
      obtain rfl := Option.some.inj ha
      rw [hreader]
      exact (h.belongs _ _ found).extended _ _
    · exact h.belongs reader a ha

theorem housed_of_reached (h : Reached f settings events s) :
    Housed settings.alignment s.compilation := by
  refine h.induction (P := fun _ s => Housed settings.alignment s.compilation) ?_ ?_
  · intro reporter c hc
    obtain ⟨arena, ha, rfl⟩ := Compilation.create_eq_ok_iff.mp hc
    refine ⟨rfl, fun reader a hreader => ?_⟩
    cases reader with
    | none =>
      obtain rfl := Option.some.inj hreader
      exact .of_create ha
    | some id =>
      -- there are no procedures yet
      simp [Compilation.arena?, Procedures.arena?, start, Procedures.empty] at hreader
  · intro events s command reply s' _ ih hs
    exact ih.step hs

omit [Opcode ω] in
/-- A reader meets its own regions and global ones, and no others. -/
theorem Housed.owner_of_stands {alignment : UInt64} {c : Compilation ω} (h : Housed alignment c)
    (hr : Stands c reader name region) :
    region.owner = reader.elim .global .procedure ∨ region.owner = .global := by
  have howner : ∀ reader, c.region? reader name = some region →
      region.owner = reader.elim .global .procedure := by
    intro reader hm
    obtain ⟨a, ha, hm⟩ := Option.bind_eq_some_iff.mp hm
    have hbelongs := h.belongs reader a ha
    exact (hbelongs.region_owner name region hm).trans hbelongs.owner_eq
  rcases Option.or_eq_some_iff.mp hr.2 with hown | ⟨-, hglobal⟩
  · exact .inl (howner reader hown)
  · exact .inr (howner none hglobal)

/-! ### Look-ups -/

/-- **A name of memory never changes its meaning.** Whatever is done after a session has found a
region under a name, it finds it again whenever the same procedure is current. It does find a region
that is handed out under a name, from then on; and no session in which another procedure is current,
or none, finds a region that was handed out in a procedure. -/
theorem memory_names_stand (h : Reached f settings events s) :
    (∀ name region, s.compilation.findMemory name = .ok (some region) →
      ∀ later s', Run f s later s' → s'.compilation.current = s.compilation.current →
        s'.compilation.findMemory name = .ok (some region)) ∧
    ∀ t size region (s₁ : Session ω), Performs f s (.declareMemory t size) (.region region) s₁ →
      (∀ later s', Run f s₁ later s' → s'.compilation.current = s.compilation.current →
        s'.compilation.findMemory t.text = .ok (some region)) ∧
      ∀ id, s.compilation.current = some id →
        ∀ events' (s' : Session ω), Reached f settings events' s' → s'.compilation.current ≠ some id →
          ∀ name, s'.compilation.findMemory name ≠ .ok (some region) := by
  refine ⟨?_, fun t size region s₁ hs => ⟨?_, ?_⟩⟩
  · intro name region hfind later s' hrun hcur
    rw [findMemory_eq_some_iff] at hfind ⊢
    rw [hcur]
    exact hrun.stands hfind
  · intro later s' hrun hcur
    rw [findMemory_eq_some_iff, hcur]
    exact hrun.stands hs.stands_new
  · intro id hid events' s' h' hcur name hfind
    -- the region belongs to the procedure, and whoever finds it owns it, unless it is global
    have howner : region.owner = .procedure id := by
      obtain ⟨a, -, ha, rfl, -⟩ := hs.handed_out
      have hbelongs := (housed_of_reached h).belongs _ a ha
      rw [hid] at hbelongs
      exact hbelongs.owner_eq
    rcases (housed_of_reached h').owner_of_stands (findMemory_eq_some_iff.mp hfind) with ho | ho
    · rcases hc : s'.compilation.current with _ | id'
      · rw [hc, howner] at ho
        cases ho
      · rw [hc, howner] at ho
        cases ho
        exact hcur hc
    · rw [howner] at ho
      cases ho

/-- There is a global `heap`, and the body of `main` is being read. -/
def heaped : List (Command Demo.Instruction) :=
  [.declareMemory ⟨"heap", .unknown⟩ 12,
    .declareProcedure ⟨"main", .unknown⟩ [] [] ⟨.procedure, 0, none⟩, .enterBody ⟨0⟩]

/-- The body of `main` is left, and a `scratch` handed out to the program. -/
def scratchedOutside : List (Command Demo.Instruction) :=
  [.leaveBody, .declareMemory ⟨"scratch", .unknown⟩ 1]

/-- A `scratch` that is handed out in `main` is found there again when there is a global one, too,
and is not found outside. -/
theorem scratch_of_main_stands :
    ∃ c region s₁, Compilation.create .default (.create .collect false) = .ok c ∧
      Performs .off ((start c).play .off heaped).2 (.declareMemory ⟨"scratch", .unknown⟩ 5)
        (.region region) s₁ ∧
      (s₁.play .off (scratchedOutside ++ [.enterBody ⟨0⟩])).2.compilation.findMemory "scratch" =
        .ok (some region) ∧
      ((start c).play .off (heaped ++ .declareMemory ⟨"scratch", .unknown⟩ 5 ::
        scratchedOutside)).2.compilation.findMemory "scratch" ≠ .ok (some region) := by
  obtain ⟨c, hc⟩ : ∃ c : Compilation Demo.Instruction,
      Compilation.create .default (.create .collect false) = .ok c := ⟨_, rfl⟩
  have hreached : ∀ commands, Reached .off .default ((start c).play .off commands).1
      ((start c).play .off commands).2 :=
    fun commands => ⟨.create .collect false, c, hc, run_play .off (start c) commands⟩
  obtain ⟨-, hnew⟩ := memory_names_stand (hreached heaped)
  cases hc
  obtain ⟨hstands, hown⟩ := hnew ⟨"scratch", .unknown⟩ 5 _ _ rfl
  refine ⟨_, _, _, rfl, rfl, hstands _ _ (run_play .off _ _) rfl, ?_⟩
  exact hown ⟨0⟩ rfl _ _ (hreached _) (by decide) "scratch"

end Session

end StackFront
