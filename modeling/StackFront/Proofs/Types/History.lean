import Mathlib.Data.List.Induction
import StackFront.Proofs.Types.Propagation

/-!
# Histories of a hierarchy

A hierarchy grows by three operations: structs are defined, and methods and static methods are
registered. Here each of them is a value, a `Change`, and so is a history, a list of changes; what
holds of every hierarchy that comes about by its operations is proved along histories
(`applyAll_induction`).

* `define_eq_ok_iff` and `registerStatic_eq_ok_iff` say what the two operations that do not walk
  leave behind, and when they succeed.
* `Struct.head` is what a struct was defined by, and the `head?` lemmas say how the operations show in it.
* `sound_of_applyAll` says that every hierarchy with a history is sound.
-/

namespace StackFront

/-- A struct with a static method entered, in place of any other of that name. -/
def Struct.withStatic (s : Struct) (name : String) (proc : ProcId) : Struct :=
  { s with statics := s.statics.insert name proc }

/-- **What a struct was defined by**, with its handle. The fields are the inherited ones as well. -/
def Struct.head (s : Struct) : StructId × StructDef :=
  (s.id, ⟨s.name, s.fields, s.parent, s.defaults, s.unpackable⟩)

namespace Hierarchy

/-- **What a hierarchy can be asked to take in.** -/
inductive Change where
  | define (d : StructDef)
  | method (owner : StructId) (name : String) (proc : ProcId)
  | static (owner : StructId) (name : String) (proc : ProcId)

/-- Carries out a change. -/
def apply (t : Hierarchy) : Change → Step Hierarchy
  | .define d => Prod.snd <$> t.define d
  | .method owner name proc => t.registerMethod owner name proc
  | .static owner name proc => t.registerStatic owner name proc

/-- Carries out changes one after the other. -/
def applyAll (t : Hierarchy) (changes : List Change) : Step Hierarchy := changes.foldlM apply t

variable {t t' : Hierarchy} {f : Log.Filter} {a owner : StructId} {name : String} {proc : ProcId}

/-! ### The single operations -/

/-- What is inherited comes from a struct that is known. -/
theorem knows_of_inherited {p : StructId} {i : List Field × Table String ProcId}
    (h : t.inherited (some p) = .ok i) :
    ∃ s, t.struct? p = some s ∧ i = (s.fields, s.methods) := by
  replace h : (t.get p).map (fun s => (s.fields, s.methods)) = .ok i := h
  rcases hg : t.get p with e | s
  · rw [hg] at h
    cases h
  · rw [hg] at h
    exact ⟨s, get_eq_ok_iff_struct?.mp hg, (Except.ok.inj h).symm⟩

/-- **A definition** attaches one struct, which has the next handle. -/
theorem define_eq_ok_iff {d : StructDef} {id : StructId} :
    ((t.define d).run f).result = .ok (id, t') ↔
      ∃ i, t.inherited d.parent = .ok i ∧ id = ⟨t.size⟩ ∧ t' = t.attach (t.build d i) := by
  rw [result_define]
  rcases t.inherited d.parent with e | i
  · simp [Except.map]
  · simp only [Except.map, Except.ok.injEq, exists_eq_left', Prod.mk.injEq]
    exact and_congr eq_comm eq_comm

theorem knows_parent_of_inherited {d : StructDef} {i : List Field × Table String ProcId}
    (h : t.inherited d.parent = .ok i) (p : StructId) (hp : (t.build d i).parent = some p) :
    t.Knows p := by
  replace hp : d.parent = some p := hp
  rw [hp] at h
  obtain ⟨s, hs, -⟩ := knows_of_inherited h
  exact .of_struct? hs

/-- **Registering a static method** changes its owner alone; it succeeds exactly if the owner
exists. -/
theorem registerStatic_eq_ok_iff :
    ((t.registerStatic owner name proc).run f).result = .ok t' ↔
      t.Knows owner ∧ t' = t.update owner (·.withStatic name proc) := by
  unfold registerStatic
  -- the record in the log wants the name of the owner, before the owner is looked up again
  by_cases ho : t.Knows owner
  · obtain ⟨s, hs⟩ := knows_iff.mp ho
    rw [Step.result_bind, Step.result_record, Step.result_bind, Step.result_monadLift,
      get_eq_ok_iff_struct?.mpr hs]
    simp only [ho, true_and, eq_comm (a := t')]
    split <;> exact Except.ok.injEq _ _ |>.to_iff
  · have hget : t.get owner = .error (.outOfBounds t.structs.size owner.index) :=
      fetch_of_le (Nat.le_of_not_lt ho)
    rw [Step.result_bind, Step.result_record, Step.result_bind, Step.result_monadLift, hget]
    simp only [ho, false_and, iff_false]
    split <;> exact fun h => by cases h

/-! ### Structs, one by one -/

/-- A change of a struct shows in what a look-up answers, as long as no struct joins or leaves. -/
theorem get_eq_map (hsize : t'.size = t.size) {change : Struct → Struct}
    (h : t'.struct? a = (t.struct? a).map change) : t'.get a = (t.get a).map change := by
  by_cases ha : t.Knows a
  · obtain ⟨st, hst⟩ := knows_iff.mp ha
    rw [hst] at h
    rw [get_eq_ok_iff_struct?.mpr hst, get_eq_ok_iff_struct?.mpr h]
    rfl
  · -- both refuse a handle that is not known, and name their size
    have hget : t.get a = .error (.outOfBounds t.size a.index) := fetch_of_le (Nat.le_of_not_lt ha)
    have hget' : t'.get a = .error (.outOfBounds t'.size a.index) :=
      fetch_of_le (Nat.le_trans (Nat.le_of_eq hsize) (Nat.le_of_not_lt ha))
    rw [hget, hget', hsize]
    rfl

/-- A method changes the subtypes of its owner, each in its table of methods. -/
theorem get_registerMethod (ht : t.Sound)
    (hr : ((t.registerMethod owner name proc).run f).result = .ok t') (a : StructId) :
    t'.get a = (t.get a).map fun st =>
      if t.isSubtype a owner = .ok true then st.withMethod name proc else st := by
  have hlinks : t.SameLinks t' := .registerMethod ht hr
  refine get_eq_map hlinks.size_eq ?_
  rw [((registerMethod_eq_ok_iff ht).mp hr).2 a]
  rcases hst : t.struct? a with _ | st
  · split <;> rfl
  · have hsub := isSubtype_eq_ok_iff (b := owner) ht (.of_struct? hst)
    rw [Option.map_some, Option.map_some]
    by_cases hext : t.Extends a owner
    · rw [if_pos hext, if_pos (hsub.mpr hext)]
    · rw [if_neg hext, if_neg (mt hsub.mp hext)]

/-- A static method changes its owner, in its table of static methods. -/
theorem get_withStatic (t : Hierarchy) (owner : StructId) (name : String) (proc : ProcId)
    (a : StructId) :
    (t.update owner (·.withStatic name proc)).get a = (t.get a).map fun st =>
      if a = owner then st.withStatic name proc else st := by
  refine get_eq_map (size_update t owner _) ?_
  rw [struct?_update]
  rcases t.struct? a with _ | st
  · split <;> rfl
  · by_cases ha : owner = a
    · rw [if_pos ha, Option.map_some, Option.map_some, if_pos ha.symm]
    · rw [if_neg ha, Option.map_some, if_neg (Ne.symm ha)]

/-! ### What the operations leave of the definitions -/

/-- The head of the struct of a handle, if there is such a struct. -/
def head? (t : Hierarchy) (a : StructId) : Option (StructId × StructDef) :=
  (t.struct? a).map Struct.head

theorem head?_of_get {s : Struct} (h : t.get a = .ok s) : t.head? a = some s.head := by
  unfold head?
  rw [get_eq_ok_iff_struct?.mp h]
  rfl

theorem exists_of_head? {d : StructId × StructDef} (h : t.head? a = some d) :
    ∃ s, t.get a = .ok s ∧ s.head = d := by
  obtain ⟨s, hs, rfl⟩ := Option.map_eq_some_iff.mp h
  exact ⟨s, get_eq_ok_iff_struct?.mpr hs, rfl⟩

theorem knows_iff_head? : t.Knows a ↔ ∃ h, t.head? a = some h := by
  rw [knows_iff, ← Option.isSome_iff_exists, ← Option.isSome_iff_exists]
  exact Bool.eq_iff_iff.mp (Option.isSome_map).symm

theorem head?_attach {s : Struct} (hid : s.id = ⟨t.size⟩)
    (hp : ∀ p, s.parent = some p → t.Knows p) (a : StructId) :
    (t.attach s).head? a = if a = s.id then some s.head else t.head? a := by
  unfold head?
  rw [struct?_attach hid hp]
  split
  · rfl
  · -- the parent has a child more, and its head is the old one
    split
    · cases t.struct? a <;> rfl
    · rfl

/-- A definition gives the new struct its head, and writes no other. -/
theorem head?_attach_build {d : StructDef} {i : List Field × Table String ProcId}
    (hi : t.inherited d.parent = .ok i) (a : StructId) :
    (t.attach (t.build d i)).head? a = if a = ⟨t.size⟩
      then some (⟨t.size⟩, { d with fields := d.fields ++ i.1 }) else t.head? a :=
  head?_attach rfl (knows_parent_of_inherited hi) a

theorem head?_registerMethod (ht : t.Sound)
    (hr : ((t.registerMethod owner name proc).run f).result = .ok t') (a : StructId) :
    t'.head? a = t.head? a := by
  classical
  unfold head?
  rw [((registerMethod_eq_ok_iff ht).mp hr).2 a]
  split
  · cases t.struct? a <;> rfl
  · rfl

theorem head?_withStatic (a : StructId) :
    (t.update owner (·.withStatic name proc)).head? a = t.head? a := by
  unfold head?
  rw [struct?_update]
  split
  · cases t.struct? a <;> rfl
  · rfl

/-! ### Histories -/

/-- A definition as a change leaves the handle of the new struct out. -/
theorem apply_define_eq_ok_iff {d : StructDef} :
    ((t.apply (.define d)).run f).result = .ok t' ↔
      ∃ id, ((t.define d).run f).result = .ok (id, t') := by
  rw [Hierarchy.apply, Step.result_map]
  rcases ((t.define d).run f).result with e | ⟨id, t''⟩ <;> simp

theorem Sound.apply (ht : t.Sound) {c : Change} (h : ((t.apply c).run f).result = .ok t') :
    t'.Sound := by
  cases c with
  | define d =>
    obtain ⟨id, hr⟩ := apply_define_eq_ok_iff.mp h
    obtain ⟨i, hi, -, rfl⟩ := define_eq_ok_iff.mp hr
    exact ht.attach rfl (knows_parent_of_inherited hi) rfl
  | method owner name proc => exact (SameLinks.registerMethod ht h).sound ht
  | static owner name proc =>
    obtain ⟨-, rfl⟩ := registerStatic_eq_ok_iff.mp h
    refine SameLinks.sound (SameLinks.update t owner ?_) ht
    exact fun _ => rfl

/-- The last change of a history is made on what those before it have led to. -/
theorem exists_of_applyAll_append {changes : List Change} {c : Change}
    (h : ((t.applyAll (changes ++ [c])).run f).result = .ok t') :
    ∃ t₁, ((t.applyAll changes).run f).result = .ok t₁ ∧
      ((t₁.apply c).run f).result = .ok t' := by
  rw [applyAll, List.foldlM_append, Step.result_bind] at h
  rcases hr : ((t.applyAll changes).run f).result with e | t₁
  · rw [applyAll] at hr
    rw [hr] at h
    cases h
  · rw [applyAll] at hr
    rw [hr, ok_bind] at h
    exact ⟨t₁, rfl, by simpa using h⟩

/-- **Induction along a history**, from its beginning. -/
theorem applyAll_induction {P : List Change → Hierarchy → Prop} (start : P [] t)
    (step : ∀ changes t₁ c t₂, P changes t₁ → ((t₁.apply c).run f).result = .ok t₂ →
      P (changes ++ [c]) t₂)
    {changes : List Change} (h : ((t.applyAll changes).run f).result = .ok t') :
    P changes t' := by
  induction changes using List.reverseRecOn generalizing t' with
  | nil =>
    obtain rfl : t = t' := Except.ok.inj h
    exact start
  | append_singleton changes c ih =>
    obtain ⟨t₁, hr, hc⟩ := exists_of_applyAll_append h
    exact step changes t₁ c t' (ih hr) hc

/-- **Every hierarchy with a history is sound.** -/
theorem sound_of_applyAll {changes : List Change}
    (h : ((empty.applyAll changes).run f).result = .ok t) : t.Sound :=
  applyAll_induction (P := fun _ t => t.Sound) Sound.empty
    (fun _ _ _ _ ht hc => ht.apply hc) h

end Hierarchy

end StackFront
