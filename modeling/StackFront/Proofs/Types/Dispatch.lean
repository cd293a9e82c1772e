import StackFront.Proofs.Types.History

/-!
# Method dispatch as a query over the history

The method tables are filled in two ways: a new struct starts with a copy of its parent's table, and
a registration is carried to the structs that exist below its owner. Together they make the tables a
record of the history: the method a struct has under a name is the one of the latest registration
under that name whose owner is the struct itself or lies above it, whether the struct existed at the
time or not. A static method is the one registered latest on exactly this struct.

* `latestMethod` and `latestStatic` are the two queries.
* `Dispatching` is the invariant along a history, `Dispatching.apply` its preservation by one change,
  and `method?_eq_latestMethod` what it says of every look-up.
-/

namespace StackFront.Hierarchy

variable {t t' : Hierarchy} {f : Log.Filter} {changes : List Change} {a b owner : StructId}
  {name : String} {proc : ProcId}

/-! ### The queries -/

/-- Whether `a` is `b` or lies below it, as subtyping decides it. -/
def liesBelow (t : Hierarchy) (a b : StructId) : Bool := (t.isSubtype a b).toOption == some true

/-- The method that a change makes a struct have under a name, if the change concerns it. -/
def Change.methodFor (t : Hierarchy) (a : StructId) (name : String) : Change → Option ProcId
  | .method owner registered proc =>
    if registered = name ∧ t.liesBelow a owner = true then some proc else none
  | _ => none

/-- The static method that a change makes a struct have under a name. -/
def Change.staticFor (a : StructId) (name : String) : Change → Option ProcId
  | .static owner registered proc => if registered = name ∧ owner = a then some proc else none
  | _ => none

/-- **The method registered latest** under a name, at a struct or above it. -/
def latestMethod (t : Hierarchy) (changes : List Change) (a : StructId) (name : String) :
    Option ProcId :=
  changes.reverse.findSome? (Change.methodFor t a name)

/-- **The static method registered latest** under a name on exactly this struct. -/
def latestStatic (changes : List Change) (a : StructId) (name : String) : Option ProcId :=
  changes.reverse.findSome? (Change.staticFor a name)

theorem latestMethod_append (t : Hierarchy) (changes : List Change) (c : Change) (a : StructId)
    (name : String) :
    t.latestMethod (changes ++ [c]) a name =
      (c.methodFor t a name).or (t.latestMethod changes a name) := by
  unfold latestMethod
  rw [List.reverse_append, List.findSome?_append]
  simp

theorem latestStatic_append (changes : List Change) (c : Change) (a : StructId) (name : String) :
    latestStatic (changes ++ [c]) a name =
      (c.staticFor a name).or (latestStatic changes a name) := by
  unfold latestStatic
  rw [List.reverse_append, List.findSome?_append]
  simp

theorem liesBelow_iff (ht : t.Sound) (ha : t.Knows a) :
    t.liesBelow a b = true ↔ t.Extends a b := by
  rw [← isSubtype_eq_ok_iff ht ha, liesBelow]
  rcases t.isSubtype a b with e | r <;> simp [Except.toOption]

/-- Structs that lie below the same owners have the same latest methods. -/
theorem latestMethod_congr
    (h : ∀ o n p, Change.method o n p ∈ changes → t'.liesBelow b o = t.liesBelow a o) :
    t'.latestMethod changes b name = t.latestMethod changes a name := by
  unfold latestMethod
  rw [← List.head?_filterMap, ← List.head?_filterMap]
  refine congrArg List.head? (List.filterMap_congr fun c hc => ?_)
  cases c with
  | define d => rfl
  | static o n p => rfl
  | method o n p => simp only [Change.methodFor, h o n p (List.mem_reverse.mp hc)]

/-- Whether one struct lies below another is a matter of links. -/
theorem SameLinks.liesBelow_eq (h : SameLinks t t') (ht : t.Sound) (ha : t.Knows a) :
    t'.liesBelow a b = t.liesBelow a b := by
  rw [Bool.eq_iff_iff, liesBelow_iff (h.sound ht) (h.knows_iff.mpr ha), liesBelow_iff ht ha,
    h.extends_iff]

/-- So is which registration is the latest. -/
theorem SameLinks.latestMethod_eq (h : SameLinks t t') (ht : t.Sound) (ha : t.Knows a) :
    t'.latestMethod changes a name = t.latestMethod changes a name :=
  latestMethod_congr fun _ _ _ _ => h.liesBelow_eq ht ha

/-- Where no registration has an owner at or above the struct, there is no latest one. -/
theorem latestMethod_eq_none
    (h : ∀ o n p, Change.method o n p ∈ changes → t.liesBelow a o = false) :
    t.latestMethod changes a name = none := by
  unfold latestMethod
  refine List.findSome?_eq_none_iff.mpr fun c hc => ?_
  cases c with
  | define d => rfl
  | static o n p => rfl
  | method o n p => simp [Change.methodFor, h o n p (List.mem_reverse.mp hc)]

theorem latestStatic_eq_none (h : ∀ n p, Change.static a n p ∉ changes) :
    latestStatic changes a name = none := by
  unfold latestStatic
  refine List.findSome?_eq_none_iff.mpr fun c hc => ?_
  cases c with
  | define d => rfl
  | method o n p => rfl
  | static o n p =>
    have hne : o ≠ a := by
      rintro rfl
      exact h n p (List.mem_reverse.mp hc)
    simp [Change.staticFor, hne]

/-! ### The tables of single structs -/

/-- The method of a name on the struct of a handle, if there is such a struct. -/
def methodOf (t : Hierarchy) (a : StructId) (name : String) : Option ProcId :=
  (t.struct? a).bind (·.method? name)

/-- The static method of a name on the struct of a handle, if there is such a struct. -/
def staticOf (t : Hierarchy) (a : StructId) (name : String) : Option ProcId :=
  (t.struct? a).bind (·.static? name)

theorem methodOf_of_get {st : Struct} (h : t.get a = .ok st) (n : String) :
    t.methodOf a n = st.method? n := by
  rw [methodOf, get_eq_ok_iff_struct?.mp h]
  rfl

theorem staticOf_of_get {st : Struct} (h : t.get a = .ok st) (n : String) :
    t.staticOf a n = st.static? n := by
  rw [staticOf, get_eq_ok_iff_struct?.mp h]
  rfl

section Attach

variable {s : Struct} (hid : s.id = ⟨t.size⟩) (hp : ∀ p, s.parent = some p → t.Knows p)

include hid hp

theorem methodOf_attach (a : StructId) (name : String) :
    (t.attach s).methodOf a name = if a = s.id then s.method? name else t.methodOf a name := by
  unfold methodOf
  rw [struct?_attach hid hp]
  split
  · rfl
  · split
    · cases t.struct? a <;> rfl
    · rfl

theorem staticOf_attach (a : StructId) (name : String) :
    (t.attach s).staticOf a name = if a = s.id then s.static? name else t.staticOf a name := by
  unfold staticOf
  rw [struct?_attach hid hp]
  split
  · rfl
  · split
    · cases t.struct? a <;> rfl
    · rfl

end Attach

open Classical in
/-- A registration shows in the structs at and below its owner, under its name. -/
theorem methodOf_registerMethod (ht : t.Sound)
    (hr : ((t.registerMethod owner name proc).run f).result = .ok t') (a : StructId) (n : String) :
    t'.methodOf a n = if t.Extends a owner ∧ name = n then some proc else t.methodOf a n := by
  obtain ⟨ho, hstruct⟩ := (registerMethod_eq_ok_iff ht).mp hr
  unfold methodOf
  rw [hstruct a]
  by_cases hao : t.Extends a owner
  · -- the struct has been visited, and so it is there
    obtain ⟨s, hs⟩ := knows_iff.mp (hao.knows_left ho)
    rw [hs]
    by_cases hn : name = n
    · simp [hao, hn, Struct.method?, Struct.withMethod]
    · simp [hao, hn, Struct.method?, Struct.withMethod, Table.get?_insert]
  · simp [hao]

/-- A method leaves the static methods of a struct alone, also where it has arrived. -/
theorem staticOf_registerMethod (ht : t.Sound)
    (hr : ((t.registerMethod owner name proc).run f).result = .ok t') (a : StructId) (n : String) :
    t'.staticOf a n = t.staticOf a n := by
  classical
  unfold staticOf
  rw [((registerMethod_eq_ok_iff ht).mp hr).2 a]
  split
  · cases t.struct? a <;> rfl
  · rfl

theorem methodOf_withStatic (a : StructId) (n : String) :
    (t.update owner (·.withStatic name proc)).methodOf a n = t.methodOf a n := by
  unfold methodOf
  rw [struct?_update]
  split
  · cases t.struct? a <;> rfl
  · rfl

/-- A static method shows in its owner alone, whatever lies below it. -/
theorem staticOf_withStatic (ho : t.Knows owner) (a : StructId) (n : String) :
    (t.update owner (·.withStatic name proc)).staticOf a n =
      if owner = a ∧ name = n then some proc else t.staticOf a n := by
  unfold staticOf
  rw [struct?_update]
  by_cases hao : owner = a
  · subst hao
    obtain ⟨s, hs⟩ := knows_iff.mp ho
    rw [hs]
    by_cases hn : name = n
    · simp [hn, Struct.static?, Struct.withStatic]
    · simp [hn, Struct.static?, Struct.withStatic, Table.get?_insert]
  · simp [hao]

/-! ### The invariant -/

/-- **The tables of a hierarchy record its history.** -/
structure Dispatching (changes : List Change) (t : Hierarchy) : Prop where
  sound : t.Sound
  /-- Methods were registered on structs that exist. -/
  knows_owner : ∀ o n p, Change.method o n p ∈ changes → t.Knows o
  /-- Static methods were, too. -/
  knows_static : ∀ o n p, Change.static o n p ∈ changes → t.Knows o
  method_eq : ∀ a, t.Knows a → ∀ n, t.methodOf a n = t.latestMethod changes a n
  static_eq : ∀ a, t.Knows a → ∀ n, t.staticOf a n = latestStatic changes a n

theorem Dispatching.empty : Dispatching [] .empty where
  sound := .empty
  knows_owner := fun _ _ _ h => absurd h List.not_mem_nil
  knows_static := fun _ _ _ h => absurd h List.not_mem_nil
  method_eq := fun a ha => absurd ha (Nat.not_lt_zero a.index)
  static_eq := fun a ha => absurd ha (Nat.not_lt_zero a.index)

/-- The invariant survives a definition: the copy that a new struct starts with is what the
registrations above its parent have made of the parent's table. -/
theorem Dispatching.define (h : Dispatching changes t) {d : StructDef}
    {i : List Field × Table String ProcId} (hi : t.inherited d.parent = .ok i) :
    Dispatching (changes ++ [.define d]) (t.attach (t.build d i)) := by
  have hid : (t.build d i).id = ⟨t.size⟩ := rfl
  have hp := knows_parent_of_inherited hi
  have hold : ∀ a, t.Knows a → (t.attach (t.build d i)).Knows a :=
    fun a ha => (knows_attach_iff hid).mpr (.inr ha)
  have hsound : (t.attach (t.build d i)).Sound := h.sound.attach hid hp rfl
  have hmem : ∀ c, c ∈ changes ++ [.define d] → c ∈ changes ∨ c = .define d := by simp
  -- an old struct lies below the same owners as before
  have hbelow : ∀ a o, t.Knows a →
      (t.attach (t.build d i)).liesBelow a o = t.liesBelow a o := by
    intro a o ha
    rw [Bool.eq_iff_iff, liesBelow_iff hsound (hold a ha), liesBelow_iff h.sound ha]
    exact extends_attach_iff hid hp h.sound ha
  -- the new struct lies below the owners that are at or above its parent
  have hnew : ∀ o, t.Knows o → ((t.attach (t.build d i)).liesBelow (t.build d i).id o = true ↔
      ∃ p, d.parent = some p ∧ t.Extends p o) := by
    intro o ho
    have hne : (t.build d i).id ≠ o := by
      rintro rfl
      exact not_knows_new hid ho
    rw [liesBelow_iff hsound ((knows_attach_iff hid).mpr (.inl rfl)),
      extends_new_iff hid hp h.sound]
    exact or_iff_right hne
  refine ⟨hsound, ?_, ?_, ?_, ?_⟩
  · intro o n p hc
    exact hold o (h.knows_owner o n p ((hmem _ hc).resolve_right (by simp)))
  · intro o n p hc
    exact hold o (h.knows_static o n p ((hmem _ hc).resolve_right (by simp)))
  · -- methods: the new struct answers as its parent does, an old one as before
    intro a ha n
    rw [methodOf_attach hid hp, latestMethod_append]
    rw [show (Change.define d).methodFor (t.attach (t.build d i)) a n = none from rfl,
      Option.none_or]
    split
    · next heq =>
      subst heq
      rcases hd : d.parent with _ | p
      · -- without a parent nothing is inherited, and no owner lies above
        rw [hd] at hi
        obtain rfl := Except.ok.inj hi
        refine (latestMethod_eq_none fun o m q hc => ?_).symm
        rw [Bool.eq_false_iff, Ne, hnew o (h.knows_owner o m q hc), hd]
        simp
      · have hpk : t.Knows p := hp p hd
        rw [hd] at hi
        obtain ⟨s, hs, rfl⟩ := knows_of_inherited hi
        have hcopy : (t.build d (s.fields, s.methods)).method? n = t.methodOf p n := by
          rw [methodOf, hs]
          rfl
        -- every owner at or above the parent is above the new struct, and no other is
        rw [hcopy, h.method_eq p hpk]
        refine (latestMethod_congr fun o m q hc => ?_).symm
        rw [Bool.eq_iff_iff, hnew o (h.knows_owner o m q hc), hd, liesBelow_iff h.sound hpk]
        simp
    · next hne =>
      have hak : t.Knows a := ((knows_attach_iff hid).mp ha).resolve_left hne
      rw [h.method_eq a hak]
      exact (latestMethod_congr fun o m q _ => hbelow a o hak).symm
  · -- static methods: the new struct has none, since none can have been registered on it
    intro a ha n
    rw [staticOf_attach hid hp, latestStatic_append]
    rw [show (Change.define d).staticFor a n = none from rfl, Option.none_or]
    split
    · next heq =>
      subst heq
      refine (latestStatic_eq_none fun m q hc => ?_).symm
      exact not_knows_new hid (h.knows_static _ m q hc)
    · next hne =>
      exact h.static_eq a (((knows_attach_iff hid).mp ha).resolve_left hne) n

/-- The invariant survives a registration: it is the latest one for every struct that it reaches. -/
theorem Dispatching.method (h : Dispatching changes t)
    (hr : ((t.registerMethod owner name proc).run f).result = .ok t') :
    Dispatching (changes ++ [.method owner name proc]) t' := by
  classical
  have ho : t.Knows owner := ((registerMethod_eq_ok_iff h.sound).mp hr).1
  have hlinks := SameLinks.registerMethod h.sound hr
  refine ⟨hlinks.sound h.sound, ?_, ?_, ?_, ?_⟩
  · -- the owner of the new registration exists, or the registration would have failed
    intro o n p hc
    rw [hlinks.knows_iff]
    rcases List.mem_append.mp hc with hc | hc
    · exact h.knows_owner o n p hc
    · obtain ⟨rfl, -, -⟩ := Change.method.inj (List.mem_singleton.mp hc)
      exact ho
  · intro o n p hc
    rw [hlinks.knows_iff]
    exact h.knows_static o n p ((List.mem_append.mp hc).resolve_right (by simp))
  · intro a ha n
    replace ha := hlinks.knows_iff.mp ha
    rw [latestMethod_append, hlinks.latestMethod_eq h.sound ha, ← h.method_eq a ha,
      methodOf_registerMethod h.sound hr]
    simp only [Change.methodFor, hlinks.liesBelow_eq h.sound ha, liesBelow_iff h.sound ha]
    -- the registration is the latest one exactly for the structs that the walk has reached
    by_cases hao : t.Extends a owner ∧ name = n
    · rw [if_pos hao, if_pos ⟨hao.2, hao.1⟩, Option.some_or]
    · rw [if_neg hao, if_neg fun h => hao ⟨h.2, h.1⟩, Option.none_or]
  · intro a ha n
    replace ha := hlinks.knows_iff.mp ha
    rw [latestStatic_append, ← h.static_eq a ha, staticOf_registerMethod h.sound hr]
    rw [show (Change.method owner name proc).staticFor a n = none from rfl, Option.none_or]

theorem Dispatching.static (h : Dispatching changes t) (ho : t.Knows owner) :
    Dispatching (changes ++ [.static owner name proc])
      (t.update owner (·.withStatic name proc)) := by
  have hlinks : SameLinks t (t.update owner (·.withStatic name proc)) := by
    refine SameLinks.update t owner ?_
    exact fun _ => rfl
  refine ⟨hlinks.sound h.sound, ?_, ?_, ?_, ?_⟩
  · intro o n p hc
    rw [hlinks.knows_iff]
    exact h.knows_owner o n p ((List.mem_append.mp hc).resolve_right (by simp))
  · intro o n p hc
    rw [hlinks.knows_iff]
    rcases List.mem_append.mp hc with hc | hc
    · exact h.knows_static o n p hc
    · obtain ⟨rfl, -, -⟩ := Change.static.inj (List.mem_singleton.mp hc)
      exact ho
  · intro a ha n
    replace ha := hlinks.knows_iff.mp ha
    rw [latestMethod_append, hlinks.latestMethod_eq h.sound ha, ← h.method_eq a ha]
    rw [show (Change.static owner name proc).methodFor _ a n = none from rfl, Option.none_or]
    exact methodOf_withStatic a n
  · intro a ha n
    rw [latestStatic_append, ← h.static_eq a (hlinks.knows_iff.mp ha), staticOf_withStatic ho]
    simp only [Change.staticFor]
    -- only the owner is concerned, whatever lies below it
    by_cases hao : owner = a ∧ name = n
    · rw [if_pos hao, if_pos ⟨hao.2, hao.1⟩, Option.some_or]
    · rw [if_neg hao, if_neg fun h => hao ⟨h.2, h.1⟩, Option.none_or]

theorem Dispatching.apply (h : Dispatching changes t) {c : Change}
    (hc : ((t.apply c).run f).result = .ok t') : Dispatching (changes ++ [c]) t' := by
  cases c with
  | define d =>
    obtain ⟨id, hr⟩ := apply_define_eq_ok_iff.mp hc
    obtain ⟨i, hi, -, rfl⟩ := define_eq_ok_iff.mp hr
    exact h.define hi
  | method owner name proc => exact h.method hc
  | static owner name proc =>
    obtain ⟨ho, rfl⟩ := registerStatic_eq_ok_iff.mp hc
    exact h.static ho

theorem dispatching_of_applyAll (h : ((empty.applyAll changes).run f).result = .ok t) :
    Dispatching changes t :=
  applyAll_induction .empty (fun _ _ _ _ ht hc => ht.apply hc) h

/-- **Dispatch is a query over the history.** Whatever has happened since the hierarchy was empty,
and in whatever order, a struct has the methods registered latest at or above it, and the static
methods registered latest on itself. -/
theorem method?_eq_latestMethod (h : ((empty.applyAll changes).run f).result = .ok t) {s : Struct}
    (hs : t.get a = .ok s) (name : String) :
    s.method? name = t.latestMethod changes a name ∧
      s.static? name = latestStatic changes a name := by
  have hd := dispatching_of_applyAll h
  rw [get_eq_ok_iff_struct?] at hs
  have ha : t.Knows a := .of_struct? hs
  rw [← hd.method_eq a ha, ← hd.static_eq a ha, methodOf, staticOf, hs]
  exact ⟨rfl, rfl⟩

/-- A struct below a struct below a third one; the method of the middle one is replaced through its
owner's parent after all three exist. -/
def drawing : List Change :=
  [.define ⟨"Base", [], none, ∅, false⟩, .define ⟨"Mid", [], some ⟨0⟩, ∅, false⟩,
    .method ⟨1⟩ "draw" ⟨1⟩, .define ⟨"Leaf", [], some ⟨1⟩, ∅, false⟩,
    .static ⟨2⟩ "draw" ⟨7⟩, .method ⟨0⟩ "draw" ⟨2⟩]

/-- The hierarchy that `drawing` leads to. -/
def drawn : Hierarchy := (((empty.applyAll drawing).run .off).result.toOption).getD .empty

/-- The later registration on the base reaches the leaf. -/
theorem leaf_draws_like_base :
    ((empty.applyAll drawing).run .off).result = .ok drawn ∧
      ∃ s, drawn.get ⟨2⟩ = .ok s ∧ s.method? "draw" = some ⟨2⟩ ∧ s.static? "draw" = some ⟨7⟩ := by
  have hrun : ((empty.applyAll drawing).run .off).result = .ok drawn := rfl
  obtain ⟨s, hs⟩ : ∃ s, drawn.get ⟨2⟩ = .ok s := ⟨_, rfl⟩
  obtain ⟨hm, hst⟩ := method?_eq_latestMethod hrun hs "draw"
  exact ⟨hrun, s, hs, hm.trans (by decide), hst.trans (by decide)⟩

end StackFront.Hierarchy
