import StackFront.Proofs.Compilation.Integrity

/-!
# Where a procedure is registered

There are three ways for a procedure to be found: by a global name, as a method of structs, and as a
static method of one struct. Which of them a new procedure goes by is decided by the owner and the
flags that are in force when it is defined. The definition itself is the same for all three, and a
static method passes through it as if it had no owner. So there are two things to show: that the
procedure is entered where it belongs, all the way down from its owner if it is a method, and that
it is entered nowhere else.

The second is more than that the other tables are left alone. A handle that stood somewhere before
its procedure was there would be found a second time. It does not, since tables that agree
(`Linked`) refer to procedures that there are.

* `Appended` says what becomes of the procedures, in the same way for all three.
* `Registered` says what becomes of the structs and of the global names, way by way, and by which
  names the new procedure is found. There is a lemma for each way, `registered_global`,
  `registered_method` and `registered_static`.
* `registered_in_one_place` says that these two are what every definition does that succeeds.
-/

namespace StackFront

/-! ### One procedure more -/

namespace Procedures

theorem arguments_of_none {d : ProcedureDef} (h : d.owner = none) : arguments d = d.inputs := by
  rw [arguments, h]
  exact List.append_nil d.inputs

theorem arguments_of_some {d : ProcedureDef} {owner : StructId} (h : d.owner = some owner) :
    arguments d = d.inputs ++ [.struct owner] := by
  rw [arguments, h]
  rfl

/-- **A procedure is appended**: it has the next handle, nothing has been done with it, and the
procedures that were there are what they were. -/
structure Appended (ps ps' : Procedures) (p : Procedure) : Prop where
  id_eq : p.id = ⟨ps.size⟩
  size_eq : ps'.size = ps.size + 1
  get_id : ps'.get p.id = .ok p
  get_of_get : ∀ q proc, ps.get q = .ok proc → ps'.get q = .ok proc
  topLevel_eq : ps'.topLevel = ps.topLevel
  calls_eq : p.calls = []
  variables_eq : p.variables = ∅
  arena_eq : p.arena = ⟨.procedure p.id, ps.alignment, 0, ∅⟩

theorem appended_grown {ps : Procedures} {d : ProcedureDef} {arena : Arena}
    (h : Arena.create (.procedure ⟨ps.size⟩) ps.alignment = .ok arena) :
    Appended ps (ps.grown d arena) (ps.build d arena) where
  id_eq := rfl
  size_eq := Array.size_push _
  get_id := by
    rw [get_eq_ok_iff, getElem?_grown]
    exact if_pos rfl
  get_of_get := fun q proc hq => by
    rw [get_eq_ok_iff] at hq ⊢
    obtain ⟨hlt, -⟩ := Array.getElem?_eq_some_iff.mp hq
    have hne : q.index ≠ ps.size := Nat.ne_of_lt hlt
    rw [getElem?_grown, if_neg hne]
    exact hq
  topLevel_eq := rfl
  calls_eq := rfl
  variables_eq := rfl
  arena_eq := (Arena.create_eq_ok_iff.mp h).2

end Procedures

/-! ### The three ways -/

/-- What is put in one place is found in that place alone, if it has not been found before. -/
theorem ite_eq_some_iff_of_ne {α : Type} {P : Prop} [Decidable P] {x : Option α} {a : α}
    (h : x ≠ some a) : (if P then some a else x) = some a ↔ P := by
  by_cases hP : P
  · rw [if_pos hP]
    exact iff_of_true rfl hP
  · rw [if_neg hP]
    exact iff_of_false h hP

variable {ω : Type}

namespace Compilation

/-- **A procedure is registered** in one of three ways, as the owner and the flags say, under a name
and with the arguments that are given: what each way changes, and where the procedure is found. -/
structure Registered (c c' : Compilation ω) (name : String) (given : List ValueType)
    (p : Procedure) : Prop where
  /-- A static method is entered for its owner, and is called without it. -/
  static : ∀ owner, c.owner = some owner → c.flags.static = true →
    (∃ st, c.types.get owner = .ok st) ∧
      (∀ a, c'.types.get a = (c.types.get a).map fun st =>
        if a = owner then st.withStatic name p.id else st) ∧
      c'.globals = c.globals ∧ p.owner = none ∧ p.inputs = given ∧ p.receiver? = none
  /-- A method is entered for its owner and for every subtype, and takes its owner on top. -/
  method : ∀ owner, c.owner = some owner → c.flags.static = false →
    (∃ st, c.types.get owner = .ok st) ∧
      (∀ a, c'.types.get a = (c.types.get a).map fun st =>
        if c.types.isSubtype a owner = .ok true then st.withMethod name p.id else st) ∧
      c'.globals = c.globals ∧ p.owner = some owner ∧ p.inputs = given ++ [.struct owner] ∧
      p.receiver? = some (.struct owner)
  /-- Any other procedure is entered under its global name, whatever the flags say. -/
  global : c.owner = none →
    c'.globals = c.globals.enterProcedure name p.id ∧ c'.types = c.types ∧
      p.owner = none ∧ p.inputs = given ∧ p.receiver? = none
  found_static : ∀ a st n, c'.types.get a = .ok st →
    (st.static? n = some p.id ↔ c.owner = some a ∧ c.flags.static = true ∧ n = name)
  found_method : ∀ a st n, c'.types.get a = .ok st →
    (st.method? n = some p.id ↔ ∃ owner, c.owner = some owner ∧ c.flags.static = false ∧
      n = name ∧ c.types.isSubtype a owner = .ok true)
  found_global : ∀ n, c'.globals.procedure? n = some p.id ↔ c.owner = none ∧ n = name

/-- **A handle that is found nowhere**, neither by a struct nor by a global name. -/
structure Unfound (c : Compilation ω) (id : ProcId) : Prop where
  method : ∀ a n, c.types.methodOf a n ≠ some id
  static : ∀ a n, c.types.staticOf a n ≠ some id
  global : ∀ n, c.globals.procedures.get? n ≠ some id

/-- Where the tables agree, the handle that comes next is found nowhere. -/
theorem Agrees.unfound {c : Compilation ω} (h : c.Agrees) : c.Unfound ⟨c.procs.size⟩ where
  method := h.not_method c.procs.head?_new
  static := h.not_static c.procs.head?_new
  global := h.not_global c.procs.head?_new

variable {f : Log.Filter} {c c' : Compilation ω} {d : ProcedureDef} {p : Procedure}
  {owner : StructId} {name : String} {given : List ValueType}

theorem registered_global (hnew : c.Unfound p.id) (ho : c.owner = none)
    (hglobals : c'.globals = c.globals.enterProcedure name p.id) (htypes : c'.types = c.types)
    (hp : p.owner = none) (hinputs : p.inputs = given) : Registered c c' name given p where
  static := fun _ ho' => by cases ho.symm.trans ho'
  method := fun _ ho' => by cases ho.symm.trans ho'
  global := fun _ => ⟨hglobals, htypes, hp, hinputs, Procedure.receiver?_of_none hp⟩
  found_static := fun a st n hst => by
    rw [← Hierarchy.staticOf_of_get hst, htypes]
    refine iff_of_false (hnew.static a n) fun ⟨ho', _⟩ => ?_
    cases ho.symm.trans ho'
  found_method := fun a st n hst => by
    rw [← Hierarchy.methodOf_of_get hst, htypes]
    refine iff_of_false (hnew.method a n) fun ⟨_, ho', _⟩ => ?_
    cases ho.symm.trans ho'
  found_global := fun n => by
    rw [Globals.procedure?, hglobals, Globals.enterProcedure, Table.get?_insert,
      ite_eq_some_iff_of_ne (hnew.global n), eq_comm, and_iff_right ho]

theorem registered_method (hnew : c.Unfound p.id) (hsound : c.types.Sound)
    (ho : c.owner = some owner) (hs : c.flags.static = false)
    (ht : ((c.types.registerMethod owner name p.id).run f).result = .ok c'.types)
    (hglobals : c'.globals = c.globals) (hp : p.owner = some owner)
    (hinputs : p.inputs = given ++ [.struct owner]) : Registered c c' name given p where
  static := fun _ _ hs' => by cases hs.symm.trans hs'
  method := fun owner' ho' _ => by
    obtain rfl := Option.some.inj (ho.symm.trans ho')
    obtain ⟨hk, -⟩ := (Hierarchy.registerMethod_eq_ok_iff hsound).mp ht
    have hreceiver : p.receiver? = some (.struct owner) := by
      rw [Procedure.receiver?_of_some hp, hinputs]
      exact List.getLast?_concat
    exact ⟨hk.exists_get, Hierarchy.get_registerMethod hsound ht, hglobals, hp, hinputs, hreceiver⟩
  global := fun ho' => by cases ho.symm.trans ho'
  found_static := fun a st n hst => by
    rw [← Hierarchy.staticOf_of_get hst, Hierarchy.staticOf_registerMethod hsound ht]
    refine iff_of_false (hnew.static a n) fun ⟨_, hs', _⟩ => ?_
    cases hs.symm.trans hs'
  found_method := fun a st n hst => by
    classical
    have hlinks : c.types.SameLinks c'.types := .registerMethod hsound ht
    have ha : c.types.Knows a :=
      hlinks.knows_iff.mp (.of_struct? (Hierarchy.get_eq_ok_iff_struct?.mp hst))
    rw [← Hierarchy.methodOf_of_get hst, Hierarchy.methodOf_registerMethod hsound ht,
      ite_eq_some_iff_of_ne (hnew.method a n), ← Hierarchy.isSubtype_eq_ok_iff hsound ha]
    constructor
    · rintro ⟨hsub, rfl⟩
      exact ⟨owner, ho, hs, rfl, hsub⟩
    · rintro ⟨owner', ho', -, rfl, hsub⟩
      obtain rfl := Option.some.inj (ho.symm.trans ho')
      exact ⟨hsub, rfl⟩
  found_global := fun n => by
    rw [Globals.procedure?, hglobals]
    refine iff_of_false (hnew.global n) fun ⟨ho', _⟩ => ?_
    cases ho.symm.trans ho'

theorem registered_static (hnew : c.Unfound p.id) (ho : c.owner = some owner)
    (hs : c.flags.static = true)
    (ht : ((c.types.registerStatic owner name p.id).run f).result = .ok c'.types)
    (hglobals : c'.globals = c.globals) (hp : p.owner = none) (hinputs : p.inputs = given) :
    Registered c c' name given p := by
  obtain ⟨hk, htypes⟩ := Hierarchy.registerStatic_eq_ok_iff.mp ht
  refine ⟨?_, ?_, ?_, ?_, ?_, ?_⟩
  · intro owner' ho' _
    obtain rfl := Option.some.inj (ho.symm.trans ho')
    rw [htypes]
    exact ⟨hk.exists_get, Hierarchy.get_withStatic c.types owner name p.id, hglobals, hp, hinputs,
      Procedure.receiver?_of_none hp⟩
  · intro _ _ hs'
    cases hs.symm.trans hs'
  · intro ho'
    cases ho.symm.trans ho'
  · intro a st n hst
    rw [← Hierarchy.staticOf_of_get hst, htypes, Hierarchy.staticOf_withStatic hk,
      ite_eq_some_iff_of_ne (hnew.static a n), ho, Option.some.injEq, and_iff_right hs,
      eq_comm (a := n)]
  · intro a st n hst
    rw [← Hierarchy.methodOf_of_get hst, htypes, Hierarchy.methodOf_withStatic]
    refine iff_of_false (hnew.method a n) fun ⟨_, _, hs', _⟩ => ?_
    cases hs.symm.trans hs'
  · intro n
    rw [Globals.procedure?, hglobals]
    refine iff_of_false (hnew.global n) fun ⟨ho', _⟩ => ?_
    cases ho.symm.trans ho'

/-- **What is committed** is appended to the procedures and registered. -/
theorem Commits.registered (h : c.Agrees) (hc : c.Commits f d c') (howner : d.owner = c.owner) :
    ∃ p, p.name = d.name ∧ p.ip = d.ip ∧ p.outputs = d.outputs ∧ p.block = d.block ∧
      Procedures.Appended c.procs c'.procs p ∧ Registered c c' d.name d.inputs p := by
  cases hc with
  | @plain arena types ho ha ht =>
    have hd : d.owner = none := howner.trans ho
    rw [Procedures.register, hd] at ht
    have hinputs := Procedures.arguments_of_none hd
    refine ⟨_, rfl, rfl, rfl, rfl, Procedures.appended_grown ha, ?_⟩
    exact registered_global h.unfound ho rfl (Except.ok.inj ht).symm hd hinputs
  | @method owner arena types ho hs ha ht =>
    have hd : d.owner = some owner := howner.trans ho
    rw [Procedures.register, hd] at ht
    have hinputs := Procedures.arguments_of_some hd
    refine ⟨_, rfl, rfl, rfl, rfl, Procedures.appended_grown ha, ?_⟩
    exact registered_method h.unfound h.sound ho hs ht rfl hd hinputs
  | @static owner arena types ho hs ha ht =>
    -- the owner has been taken from the procedure, and is where it is entered all the same
    refine ⟨_, rfl, rfl, rfl, rfl, Procedures.appended_grown ha, ?_⟩
    exact registered_static h.unfound ho hs ht rfl rfl (Procedures.arguments_of_none rfl)

/-- A name that is entered as a global one was free. -/
theorem holds_of_vetProcedureName (ho : c.owner = none) (h : c.vetProcedureName name = .ok ()) :
    c.globals.holds name = false := by
  rw [vetProcedureName, ho] at h
  exact (Globals.vet_eq_ok_iff.mp h).1

end Compilation

/-! ### Sessions -/

namespace Session

variable [Opcode ω] {f : Log.Filter} {settings : Settings} {s s' : Session ω}
  {events : List (Event ω)} {t : Token} {inputs outputs : List ValueType} {block : Block}
  {id : ProcId}

/-- **A procedure is registered in one place.** Whatever the history of a session: a definition that
succeeds appends one procedure, which is unused and as it was asked for, and registers it as a
static method of the owner in force, as a method of it and of its subtypes, or under a global name
that was free. It leaves alone what the other two would have changed, so that the procedure is found
by no name and by no struct but these. -/
theorem registered_in_one_place (h : Reached f settings events s)
    (hs : Performs f s (.declareProcedure t inputs outputs block) (.procedure id) s') :
    ∃ p, p.id = id ∧ p.name = t.text ∧ p.ip = block.start ∧ p.outputs = outputs ∧
      p.block = block ∧
      Procedures.Appended s.compilation.procs s'.compilation.procs p ∧
      s.compilation.Registered s'.compilation t.text inputs p ∧
      (s.compilation.owner = none → s.compilation.globals.holds t.text = false) := by
  have hagrees := agrees_of_reached h
  have hdefines := hs.defines
  generalize s'.compilation = c' at hdefines ⊢
  cases hdefines with
  | nothing vain =>
    obtain ⟨e, he⟩ := vain rfl
    cases he
  | procedure accepted commits =>
    -- the location has moved to the name, and neither the owner nor the tables are part of it
    have hmoved : (s.compilation.moveTo t.location).Agrees := hagrees
    obtain ⟨p, hname, hip, houtputs, hblock, happended, hregistered⟩ :=
      commits.registered hmoved rfl
    exact ⟨p, happended.id_eq, hname, hip, houtputs, hblock, happended, { hregistered with },
      fun ho => Compilation.holds_of_vetProcedureName ho accepted⟩

/-- A shape, a circle, which is one, and a window, which is not. Code for shapes is being read. -/
def figures : List (Command Demo.Instruction) :=
  [.declareStruct ⟨"Shape", .unknown⟩ [] none ∅,
    .declareStruct ⟨"Circle", .unknown⟩ [] (some ⟨0⟩) ∅,
    .declareStruct ⟨"Window", .unknown⟩ [] none ∅, .setOwner (some ⟨0⟩)]

/-- Circles can be drawn as soon as shapes can, and windows cannot; the program outside has no word
for it. -/
theorem drawing_is_for_shapes :
    ∃ c s' draw circle window, Compilation.create .default (.create .collect false) = .ok c ∧
      Performs .off ((start c).play .off figures).2
        (.declareProcedure ⟨"draw", .unknown⟩ [.ptr] [] ⟨.procedure, 0, none⟩) (.procedure ⟨0⟩) s' ∧
      s'.compilation.procs.get ⟨0⟩ = .ok draw ∧ draw.inputs = [.ptr, .struct ⟨0⟩] ∧
      s'.compilation.types.get ⟨1⟩ = .ok circle ∧ circle.method? "draw" = some ⟨0⟩ ∧
      s'.compilation.types.get ⟨2⟩ = .ok window ∧ window.method? "draw" ≠ some ⟨0⟩ ∧
      s'.compilation.globals.procedure? "draw" ≠ some ⟨0⟩ := by
  obtain ⟨c, hc⟩ : ∃ c : Compilation Demo.Instruction,
      Compilation.create .default (.create .collect false) = .ok c := ⟨_, rfl⟩
  have hr : Reached .off .default ((start c).play .off figures).1 ((start c).play .off figures).2 :=
    ⟨.create .collect false, c, hc, run_play .off (start c) figures⟩
  cases hc
  have hdraw := @registered_in_one_place _ _ .off .default _ _ _ ⟨"draw", .unknown⟩ [.ptr] []
    ⟨.procedure, 0, none⟩ ⟨0⟩ hr rfl
  obtain ⟨draw, hid, -, -, -, -, happended, hregistered, -⟩ := hdraw
  have hget := happended.get_id
  obtain ⟨-, -, -, -, hinputs, -⟩ := hregistered.method ⟨0⟩ rfl rfl
  have hcircle := hregistered.found_method ⟨1⟩ _ "draw" rfl
  have hwindow := hregistered.found_method ⟨2⟩ _ "draw" rfl
  have hglobal := hregistered.found_global "draw"
  rw [hid] at hget hcircle hwindow hglobal
  refine ⟨_, _, draw, _, _, rfl, rfl, hget, hinputs, rfl, ?_, rfl, ?_, ?_⟩
  · exact hcircle.mpr ⟨⟨0⟩, rfl, rfl, rfl, by decide⟩
  · intro hfound
    obtain ⟨owner, howner, -, -, hsub⟩ := hwindow.mp hfound
    obtain rfl := Option.some.inj howner
    exact absurd hsub (by decide)
  · exact fun hfound => by cases (hglobal.mp hfound).1

end Session

end StackFront
