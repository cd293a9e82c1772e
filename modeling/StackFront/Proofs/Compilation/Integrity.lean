import StackFront.Demo.Instruction
import StackFront.Proofs.Compilation.Definitions

/-!
# The tables of a compilation agree

Structs, procedures and global names are kept in tables of their own, and refer to each other by
handles and names. A method is entered under a handle before there is a procedure with that handle,
it is copied into the structs that are defined below its owner, and written over by later ones; a
static method loses its owner on the way. None of this makes the tables disagree: what is found
under a name is registered, bears the name, and takes the receiver that it is called with.

* `Linked` is the invariant. It speaks of the heads of procedures only, so that it is no matter of
  what else is written to them. One lemma for each way to enter something says that it is kept.
* `Performs.agrees` is the step and `agrees_of_reached` the run.
* `tables_agree` says the same in terms of what look-ups answer.
-/

namespace StackFront

/-! ### The invariant -/

/-- **Tables that agree**: structs, the heads of procedures, and the global names of both. -/
structure Linked (types : Hierarchy) (heads : ProcId → Option (ProcId × ProcedureDef))
    (procedures : Table String ProcId) (structs : Table String StructId) : Prop where
  sound : types.Sound
  /-- A method belongs to the struct or to one above it, which is what it takes on top. -/
  method : ∀ a n p, types.methodOf a n = some p → ∃ d o, heads p = some (p, d) ∧ d.name = n ∧
    d.owner = some o ∧ types.Extends a o ∧ d.inputs.getLast? = some (.struct o)
  /-- A static method belongs to nothing. -/
  static : ∀ a n p, types.staticOf a n = some p →
    ∃ d, heads p = some (p, d) ∧ d.name = n ∧ d.owner = none
  /-- Neither does a procedure with a global name. -/
  global : ∀ n p, procedures.get? n = some p →
    ∃ d, heads p = some (p, d) ∧ d.name = n ∧ d.owner = none
  /-- What has a global name is no static method. -/
  apart : ∀ n p, procedures.get? n = some p → ∀ a m, types.staticOf a m ≠ some p
  /-- The names of structs are names of exactly the structs there are. -/
  struct_iff : ∀ n a, structs.get? n = some a ↔ ∃ d, types.head? a = some (a, d) ∧ d.name = n

namespace Linked

variable {types types' : Hierarchy} {heads heads' : ProcId → Option (ProcId × ProcedureDef)}
  {procedures : Table String ProcId} {structs : Table String StructId}

theorem empty : Linked .empty (fun _ => none) ∅ ∅ where
  sound := .empty
  method := fun _ _ _ h => by simp [Hierarchy.methodOf, Hierarchy.struct?, Hierarchy.empty] at h
  static := fun _ _ _ h => by simp [Hierarchy.staticOf, Hierarchy.struct?, Hierarchy.empty] at h
  global := fun _ _ h => by simp at h
  apart := fun _ _ h => by simp at h
  struct_iff := fun _ _ => by simp [Hierarchy.head?, Hierarchy.struct?, Hierarchy.empty]

/-- A procedure that is not there yet has no entry in any table. -/
theorem not_global (h : Linked types heads procedures structs) {p : ProcId} (hp : heads p = none)
    (n : String) : procedures.get? n ≠ some p := by
  intro hn
  obtain ⟨d, hd, -⟩ := h.global n p hn
  rw [hp] at hd
  cases hd

theorem not_method (h : Linked types heads procedures structs) {p : ProcId} (hp : heads p = none)
    (a : StructId) (n : String) : types.methodOf a n ≠ some p := by
  intro hn
  obtain ⟨d, o, hd, -⟩ := h.method a n p hn
  rw [hp] at hd
  cases hd

theorem not_static (h : Linked types heads procedures structs) {p : ProcId} (hp : heads p = none)
    (a : StructId) (n : String) : types.staticOf a n ≠ some p := by
  intro hn
  obtain ⟨d, hd, -⟩ := h.static a n p hn
  rw [hp] at hd
  cases hd

/-! ### What keeps it -/

/-- Further procedures do no harm, as long as nothing refers to them. -/
theorem grow (h : Linked types heads procedures structs)
    (hg : ∀ p d, heads p = some d → heads' p = some d) : Linked types heads' procedures structs where
  sound := h.sound
  method := fun a n p hm => by
    obtain ⟨d, o, hd, hrest⟩ := h.method a n p hm
    exact ⟨d, o, hg p _ hd, hrest⟩
  static := fun a n p hs => by
    obtain ⟨d, hd, hrest⟩ := h.static a n p hs
    exact ⟨d, hg p _ hd, hrest⟩
  global := fun n p hn => by
    obtain ⟨d, hd, hrest⟩ := h.global n p hn
    exact ⟨d, hg p _ hd, hrest⟩
  apart := h.apart
  struct_iff := h.struct_iff

variable {f : Log.Filter} {p : ProcId} {d : ProcedureDef} {owner : StructId} {name : String}

/-- A procedure without owner can be given a global name if it is no static method. -/
theorem enterProcedure (h : Linked types heads procedures structs) (hp : heads p = some (p, d))
    (hname : d.name = name) (ho : d.owner = none) (hs : ∀ a m, types.staticOf a m ≠ some p) :
    Linked types heads (procedures.insert name p) structs where
  sound := h.sound
  method := h.method
  static := h.static
  global := fun n q hq => by
    rw [Table.get?_insert] at hq
    split at hq
    · next hn =>
      obtain rfl := Option.some.inj hq
      exact ⟨d, hp, hname.trans hn, ho⟩
    · exact h.global n q hq
  apart := fun n q hq => by
    rw [Table.get?_insert] at hq
    split at hq
    · obtain rfl := Option.some.inj hq
      exact hs
    · exact h.apart n q hq
  struct_iff := h.struct_iff

/-- A procedure can be a method of its owner, and of all that lies below, if it takes the owner on
top of its other arguments. -/
theorem registerMethod (h : Linked types heads procedures structs) (hp : heads p = some (p, d))
    (hname : d.name = name) (ho : d.owner = some owner)
    (hl : d.inputs.getLast? = some (.struct owner))
    (hr : ((types.registerMethod owner name p).run f).result = .ok types') :
    Linked types' heads procedures structs := by
  have hlinks : types.SameLinks types' := .registerMethod h.sound hr
  refine ⟨hlinks.sound h.sound, ?_, ?_, h.global, ?_, ?_⟩
  · -- the walk has reached exactly the structs that lie below the owner
    intro a n q hq
    rw [Hierarchy.methodOf_registerMethod h.sound hr] at hq
    simp only [hlinks.extends_iff]
    split at hq
    · next hcond =>
      obtain ⟨hao, hn⟩ := hcond
      obtain rfl := Option.some.inj hq
      exact ⟨d, owner, hp, hname.trans hn, ho, hao, hl⟩
    · exact h.method a n q hq
  · intro a n q hq
    rw [Hierarchy.staticOf_registerMethod h.sound hr] at hq
    exact h.static a n q hq
  · intro n q hq a m
    rw [Hierarchy.staticOf_registerMethod h.sound hr]
    exact h.apart n q hq a m
  · intro n a
    rw [Hierarchy.head?_registerMethod h.sound hr]
    exact h.struct_iff n a

/-- A procedure without owner can be a static method if it has no global name. -/
theorem registerStatic (h : Linked types heads procedures structs) (hp : heads p = some (p, d))
    (hname : d.name = name) (ho : d.owner = none) (hg : ∀ n, procedures.get? n ≠ some p)
    (hr : ((types.registerStatic owner name p).run f).result = .ok types') :
    Linked types' heads procedures structs := by
  obtain ⟨hk, rfl⟩ := Hierarchy.registerStatic_eq_ok_iff.mp hr
  have hlinks : types.SameLinks (types.update owner (·.withStatic name p)) := by
    refine .update types owner ?_
    exact fun _ => rfl
  refine ⟨hlinks.sound h.sound, ?_, ?_, h.global, ?_, ?_⟩
  · intro a n q hq
    rw [Hierarchy.methodOf_withStatic] at hq
    simp only [hlinks.extends_iff]
    exact h.method a n q hq
  · intro a n q hq
    rw [Hierarchy.staticOf_withStatic hk] at hq
    split at hq
    · next hcond =>
      obtain rfl := Option.some.inj hq
      exact ⟨d, hp, hname.trans hcond.2, ho⟩
    · exact h.static a n q hq
  · -- the new entry is not a global one, and the others are old
    intro n q hq a m
    rw [Hierarchy.staticOf_withStatic hk]
    split
    · intro hpq
      obtain rfl := Option.some.inj hpq
      exact hg n hq
    · exact h.apart n q hq a m
  · intro n a
    rw [Hierarchy.head?_withStatic]
    exact h.struct_iff n a

/-- A struct that inherits has the methods of its parent. -/
theorem exists_of_inherited {d : StructDef} {i : List Field × Table String ProcId} {n : String}
    (hi : types.inherited d.parent = .ok i) (hn : i.2.get? n = some p) :
    ∃ q, d.parent = some q ∧ types.methodOf q n = some p := by
  rcases hd : d.parent with _ | q
  · -- without a parent nothing is inherited
    rw [hd] at hi
    obtain rfl := Except.ok.inj hi
    simp at hn
  · rw [hd] at hi
    obtain ⟨s, hs, rfl⟩ := Hierarchy.knows_of_inherited hi
    refine ⟨q, rfl, ?_⟩
    rw [Hierarchy.methodOf, hs]
    exact hn

/-- A struct can be defined under a name that no struct has. -/
theorem define (h : Linked types heads procedures structs) {d : StructDef}
    {i : List Field × Table String ProcId} (hi : types.inherited d.parent = .ok i)
    (hfree : structs.get? d.name = none) :
    Linked (types.attach (types.build d i)) heads procedures
      (structs.insert d.name ⟨types.size⟩) := by
  have hid : (types.build d i).id = ⟨types.size⟩ := rfl
  have hparent := Hierarchy.knows_parent_of_inherited hi
  have hnew : types.head? ⟨types.size⟩ = none := by
    rw [Option.eq_none_iff_forall_ne_some]
    intro e he
    exact Hierarchy.not_knows_new hid (Hierarchy.knows_iff_head?.mpr ⟨e, he⟩)
  refine ⟨h.sound.attach hid hparent rfl, ?_, ?_, h.global, ?_, ?_⟩
  · intro a n p hp
    rw [Hierarchy.methodOf_attach hid hparent] at hp
    split at hp
    · next ha =>
      -- what is inherited belongs to the parent or to a struct above it, and that is above `a` too
      subst ha
      obtain ⟨q, hq, hqp⟩ := exists_of_inherited hi hp
      obtain ⟨pd, o, hd, hn, ho, hext, hl⟩ := h.method q n p hqp
      refine ⟨pd, o, hd, hn, ho, ?_, hl⟩
      exact (Hierarchy.extends_new_iff hid hparent h.sound).mpr (.inr ⟨q, hq, hext⟩)
    · obtain ⟨pd, o, hd, hn, ho, hext, hl⟩ := h.method a n p hp
      have ha : types.Knows a := by
        obtain ⟨s, hs, -⟩ := Option.bind_eq_some_iff.mp hp
        exact .of_struct? hs
      refine ⟨pd, o, hd, hn, ho, ?_, hl⟩
      exact (Hierarchy.extends_attach_iff hid hparent h.sound ha).mpr hext
  · intro a n p hp
    rw [Hierarchy.staticOf_attach hid hparent] at hp
    split at hp
    · -- static methods are not inherited
      cases hp
    · exact h.static a n p hp
  · intro n p hp a m
    rw [Hierarchy.staticOf_attach hid hparent]
    split
    · exact fun hs => by cases hs
    · exact h.apart n p hp a m
  · intro n a
    rw [Table.get?_insert, Hierarchy.head?_attach hid hparent]
    by_cases ha : a = ⟨types.size⟩
    · -- the new struct is found under its name, and has been found under no other
      subst ha
      rw [if_pos (show (⟨types.size⟩ : StructId) = (types.build d i).id from hid.symm)]
      have hold : structs.get? n ≠ some ⟨types.size⟩ := by
        intro hn
        obtain ⟨e, he, -⟩ := (h.struct_iff n ⟨types.size⟩).mp hn
        rw [hnew] at he
        cases he
      constructor
      · intro hn
        split at hn
        · next heq => exact ⟨_, rfl, heq⟩
        · exact absurd hn hold
      · rintro ⟨e, he, rfl⟩
        obtain ⟨-, rfl⟩ := Prod.mk.inj (Option.some.inj he)
        exact if_pos rfl
    · -- an old struct keeps its name, which is not the new one
      rw [if_neg (show a ≠ (types.build d i).id from ha)]
      by_cases hn : d.name = n
      · subst hn
        rw [if_pos rfl]
        refine iff_of_false (fun hc => ha (Option.some.inj hc).symm) fun hc => ?_
        have hs := (h.struct_iff d.name a).mpr hc
        rw [hfree] at hs
        cases hs
      · rw [if_neg hn]
        exact h.struct_iff n a

end Linked

/-! ### Steps and runs -/

variable {ω : Type}

/-- The tables of a compilation agree. -/
def Compilation.Agrees (c : Compilation ω) : Prop :=
  Linked c.types c.procs.head? c.globals.procedures c.globals.structs

/-- **A procedure whose name has been accepted** is entered everywhere it has to be. -/
theorem Compilation.Commits.agrees {f : Log.Filter} {c c' : Compilation ω} {d : ProcedureDef}
    (h : c.Agrees) (hc : c.Commits f d c') (howner : d.owner = c.owner) : c'.Agrees := by
  have hfresh := c.procs.head?_new
  -- the procedure joins the table first: there it can be referred to, and nothing does yet
  have grown : ∀ (d' : ProcedureDef) (arena : Arena),
      Linked c.types (c.procs.grown d' arena).head? c.globals.procedures c.globals.structs := by
    intro d' arena
    refine h.grow fun q e he => ?_
    rw [Procedures.head?_grown, if_neg]
    · exact he
    · rintro rfl
      rw [hfresh] at he
      cases he
  have self : ∀ (d' : ProcedureDef) (arena : Arena),
      (c.procs.grown d' arena).head? ⟨c.procs.size⟩ =
        some (⟨c.procs.size⟩, { d' with inputs := Procedures.arguments d' }) := by
    intro d' arena
    rw [Procedures.head?_grown, if_pos rfl]
  cases hc with
  | @plain arena types ho ha ht =>
    have hd : d.owner = none := howner.trans ho
    rw [Procedures.register, hd] at ht
    obtain rfl := Except.ok.inj ht
    exact (grown d arena).enterProcedure (self d arena) rfl hd (h.not_static hfresh)
  | @method owner arena types ho hs ha ht =>
    have hd : d.owner = some owner := howner.trans ho
    rw [Procedures.register, hd] at ht
    refine (grown d arena).registerMethod (self d arena) rfl hd ?_ ht
    -- the owner comes on top of the arguments that were given
    simp [Procedures.arguments, hd]
  | @static owner arena types ho hs ha ht =>
    have hself := self { d with owner := none } arena
    exact (grown _ arena).registerStatic hself rfl rfl (h.not_global hfresh) ht

namespace Session

variable [Opcode ω] {f : Log.Filter} {settings : Settings} {s s' : Session ω}
  {command : Command ω} {reply : Reply} {events : List (Event ω)}

/-- **A step keeps the tables in agreement**, whether it defines something or not. -/
theorem Performs.agrees (h : s.compilation.Agrees) (hs : Performs f s command reply s') :
    s'.compilation.Agrees := by
  have hdefines := hs.defines
  generalize s'.compilation = c' at hdefines ⊢
  cases hdefines with
  | nothing vain types_eq head?_eq procedures_eq structs_eq =>
    unfold Compilation.Agrees
    rw [types_eq, procedures_eq, structs_eq, funext head?_eq]
    exact h
  | struct free inherited =>
    refine Linked.define h inherited ?_
    -- a name that nothing has is the name of no struct
    simp only [Globals.holds, Bool.or_eq_false_iff] at free
    obtain ⟨⟨-, hfree⟩, -⟩ := free
    exact Table.get?_eq_none_iff.mpr hfree
  | @procedure t inputs outputs block c' accepted commits =>
    have hmoved : (s.compilation.moveTo t.location).Agrees := h
    exact commits.agrees hmoved rfl

theorem agrees_of_reached (h : Reached f settings events s) : s.compilation.Agrees := by
  refine h.induction (P := fun _ s => s.compilation.Agrees) ?_ ?_
  · intro reporter c hc
    obtain ⟨arena, -, rfl⟩ := Compilation.create_eq_ok_iff.mp hc
    exact .empty
  · intro events s command reply s' _ ih hs
    exact hs.agrees ih

/-- **Tables that agree, as look-ups tell**: whatever is found, by handle or by name. -/
structure Consistent (c : Compilation ω) : Prop where
  /-- A method is registered, under its name, with an owner that the struct is a subtype of. The
  owner is the argument on top, and the receiver. -/
  method : ∀ a st n p, c.types.get a = .ok st → st.method? n = some p →
    ∃ proc o, c.procs.get p = .ok proc ∧ proc.id = p ∧ proc.name = n ∧ proc.owner = some o ∧
      c.types.isSubtype a o = .ok true ∧ proc.inputs.getLast? = some (.struct o) ∧
      proc.receiver? = some (.struct o)
  /-- A static method is registered, under its name, without owner and without receiver. -/
  static : ∀ a st n p, c.types.get a = .ok st → st.static? n = some p →
    ∃ proc, c.procs.get p = .ok proc ∧ proc.id = p ∧ proc.name = n ∧ proc.owner = none ∧
      proc.receiver? = none
  /-- A procedure with a global name is registered, under its name, without owner. No struct has it
  as a method, static or not. -/
  global : ∀ n p, c.globals.procedure? n = some p →
    (∃ proc, c.procs.get p = .ok proc ∧ proc.id = p ∧ proc.name = n ∧ proc.owner = none) ∧
      ∀ a st m, c.types.get a = .ok st → st.method? m ≠ some p ∧ st.static? m ≠ some p
  /-- Every struct stands at its own handle. -/
  struct_id : ∀ a st, c.types.get a = .ok st → st.id = a
  /-- Names of structs and handles of structs belong together one to one: a name leads to the struct
  that bears it, and every struct, standing at its handle, is found under the name that it bears. -/
  struct_iff : ∀ n a, c.globals.struct? n = some a ↔
    ∃ st, c.types.get a = .ok st ∧ st.id = a ∧ st.name = n

/-- **The tables of every compilation agree**, whatever has been done in its session: methods and
their copies, static methods, global procedures and structs. -/
theorem tables_agree (h : Reached f settings events s) : Consistent s.compilation := by
  have hagrees := agrees_of_reached h
  refine ⟨?_, ?_, ?_, ?_, ?_⟩
  · intro a st n p hst hp
    rw [← Hierarchy.methodOf_of_get hst] at hp
    obtain ⟨d, o, hd, hn, ho, hext, hl⟩ := hagrees.method a n p hp
    obtain ⟨proc, hproc, hhead⟩ := Procedures.exists_of_head? hd
    obtain ⟨hid, rfl⟩ := Prod.mk.inj hhead
    have ha : s.compilation.types.Knows a := .of_struct? (Hierarchy.get_eq_ok_iff_struct?.mp hst)
    have hsub := (Hierarchy.isSubtype_eq_ok_iff hagrees.sound ha).mpr hext
    exact ⟨proc, o, hproc, hid, hn, ho, hsub, hl, (Procedure.receiver?_of_some ho).trans hl⟩
  · intro a st n p hst hp
    rw [← Hierarchy.staticOf_of_get hst] at hp
    obtain ⟨d, hd, hn, ho⟩ := hagrees.static a n p hp
    obtain ⟨proc, hproc, hhead⟩ := Procedures.exists_of_head? hd
    obtain ⟨hid, rfl⟩ := Prod.mk.inj hhead
    exact ⟨proc, hproc, hid, hn, ho, Procedure.receiver?_of_none ho⟩
  · intro n p hp
    obtain ⟨d, hd, hn, ho⟩ := hagrees.global n p hp
    obtain ⟨proc, hproc, hhead⟩ := Procedures.exists_of_head? hd
    obtain ⟨hid, rfl⟩ := Prod.mk.inj hhead
    refine ⟨⟨proc, hproc, hid, hn, ho⟩, fun a st m hst => ⟨fun hm => ?_, fun hm => ?_⟩⟩
    · -- a method has an owner, and this procedure has none
      rw [← Hierarchy.methodOf_of_get hst] at hm
      obtain ⟨d', o, hd', -, ho', -⟩ := hagrees.method a m p hm
      obtain ⟨-, rfl⟩ := Prod.mk.inj (Option.some.inj (hd.symm.trans hd'))
      cases ho.symm.trans ho'
    · rw [← Hierarchy.staticOf_of_get hst] at hm
      exact hagrees.apart n p hp a m hm
  · intro a st hst
    exact hagrees.sound.id_eq a st (Hierarchy.get_eq_ok_iff_struct?.mp hst)
  · intro n a
    rw [Globals.struct?, hagrees.struct_iff]
    constructor
    · rintro ⟨d, hd, hn⟩
      obtain ⟨st, hst, hhead⟩ := Option.map_eq_some_iff.mp hd
      obtain ⟨hid, rfl⟩ := Prod.mk.inj hhead
      exact ⟨st, Hierarchy.get_eq_ok_iff_struct?.mpr hst, hid, hn⟩
    · rintro ⟨st, hst, hid, hn⟩
      refine ⟨st.head.2, ?_, hn⟩
      rw [Hierarchy.head?_of_get hst]
      exact congrArg some (Prod.ext hid rfl)

/-- A shape and a circle, which is one. One method is copied into the circle, and one reaches it
later; a static method and a procedure bear the name of the latter. -/
def shapes : List (Command Demo.Instruction) :=
  [.declareStruct ⟨"Shape", .unknown⟩ [] none ∅, .setOwner (some ⟨0⟩),
    .declareProcedure ⟨"area", .unknown⟩ [] [.int] ⟨.procedure, 0, none⟩,
    .declareStruct ⟨"Circle", .unknown⟩ [⟨"radius", .int⟩] (some ⟨0⟩) ∅,
    .declareProcedure ⟨"draw", .unknown⟩ [.ptr] [] ⟨.procedure, 0, none⟩,
    .setOwner (some ⟨1⟩), .setFlags ⟨false, false, true, false⟩,
    .declareProcedure ⟨"draw", .unknown⟩ [] [] ⟨.procedure, 0, none⟩, .setOwner none,
    .declareProcedure ⟨"draw", .unknown⟩ [] [] ⟨.procedure, 0, none⟩]

/-- Of three procedures of one name the circle calls the one that takes a shape, and the one without
receiver is not it. -/
theorem circle_draws_as_shape :
    ∃ c circle draw owner, Compilation.create .default (.create .collect false) = .ok c ∧
      ((start c).play .off shapes).2.compilation.types.get ⟨1⟩ = .ok circle ∧
      circle.method? "draw" = some ⟨1⟩ ∧ circle.static? "draw" = some ⟨2⟩ ∧
      ((start c).play .off shapes).2.compilation.globals.procedure? "draw" = some ⟨3⟩ ∧
      ((start c).play .off shapes).2.compilation.procs.get ⟨1⟩ = .ok draw ∧
      ((start c).play .off shapes).2.compilation.types.isSubtype ⟨1⟩ owner = .ok true ∧
      draw.receiver? = some (.struct owner) := by
  obtain ⟨c, hc⟩ : ∃ c : Compilation Demo.Instruction,
      Compilation.create .default (.create .collect false) = .ok c := ⟨_, rfl⟩
  have hr : Reached .off .default ((start c).play .off shapes).1 ((start c).play .off shapes).2 :=
    ⟨.create .collect false, c, hc, run_play .off (start c) shapes⟩
  cases hc
  obtain ⟨draw, owner, hget, -, -, -, hsub, -, hrec⟩ :=
    (tables_agree hr).method ⟨1⟩ _ "draw" ⟨1⟩ rfl rfl
  exact ⟨_, _, draw, owner, rfl, rfl, rfl, rfl, rfl, hget, hsub, hrec⟩

end Session

end StackFront
