import Mathlib.Data.List.Sort
import StackFront.Proofs.Types.History

/-!
# Subtyping as a stable order

A hierarchy is a forest, and subtyping is the order of that forest. Neither is checked anywhere: the
walk from a struct to its ancestors keeps no record of where it has been, and the two ends of a link
are stored apart. That the walk comes to its end and that the two ends agree rests on the invariant
of `Forest`, under which handles decrease on the way up.

What lies above a struct is settled when it is defined. A struct that is defined later stands at the
end of the table and is a parent of nothing that was there before, and methods are no matter of
links. So the answers about old structs stay what they were.

* `Lineage` is the way up from a struct to one that has no parent, and `ancestors_eq_ok_iff` says that
  the ancestors are the structs on this way.
* `Outgrows` relates a hierarchy to one that it has grown out of, and `Outgrows.apply` says that every
  change makes a hierarchy grow in this way.
* `subtyping_is_stable_order` is the result.
-/

namespace StackFront.Hierarchy

variable {t t' t'' : Hierarchy} {f : Log.Filter} {a b c p : StructId} {above above' : List StructId}
  {changes : List Change}

/-! ### The way up -/

/-- **The way up from a struct**: its parent, the parent of that, and so on, up to a struct that has
none. -/
inductive Lineage (t : Hierarchy) : StructId → List StructId → Prop
  | root {a : StructId} (orphan : t.parent? a = none) : Lineage t a []
  | step {a p : StructId} {above : List StructId} (parent : t.parent? a = some p)
      (rest : Lineage t p above) : Lineage t a (p :: above)

/-- There is one way up only. -/
theorem Lineage.unique (h : t.Lineage a above) (h' : t.Lineage a above') : above = above' := by
  induction h generalizing above' with
  | root orphan =>
    cases h' with
    | root => rfl
    | step parent => cases orphan.symm.trans parent
  | step parent rest ih =>
    cases h' with
    | root orphan => cases orphan.symm.trans parent
    | step parent' rest' =>
      obtain rfl := Option.some.inj (parent.symm.trans parent')
      rw [ih rest']

/-- Handles decrease on the way up. -/
theorem Lineage.decreasing (ht : t.Sound) (h : t.Lineage a above) :
    (a :: above).Pairwise fun x y => y.index < x.index := by
  induction h with
  | root => exact List.pairwise_singleton _ _
  | step parent rest ih =>
    have hlt := ht.parent_lt _ _ parent
    refine List.pairwise_cons.mpr ⟨fun y hy => ?_, ih⟩
    -- what is above the parent has a handle that is smaller still
    rcases List.mem_cons.mp hy with rfl | hy
    · exact hlt
    · exact Nat.lt_trans (List.rel_of_pairwise_cons ih hy) hlt

/-- The way up from a known struct passes known structs only. -/
theorem Lineage.knows (ht : t.Sound) (h : t.Lineage a above) (ha : t.Knows a) :
    ∀ c ∈ a :: above, t.Knows c := by
  induction h with
  | root => exact List.forall_mem_singleton.mpr ha
  | step parent _ ih => exact List.forall_mem_cons.mpr ⟨ha, ih (ht.knows_parent parent)⟩

/-- The chain of ancestors is not cut short by a bound that is at least the handle it starts from. -/
theorem lineage_chain (ht : t.Sound) {n : Nat} (hn : a.index ≤ n) :
    t.Lineage a (t.chain n a) := by
  induction n generalizing a with
  | zero =>
    refine .root (Option.eq_none_iff_forall_ne_some.mpr fun p hp => ?_)
    have hlt := ht.parent_lt a p hp
    omega
  | succ n ih =>
    unfold chain
    split
    · next hp => exact .root hp
    · next p hp =>
      have hlt := ht.parent_lt a p hp
      exact .step hp (ih (by omega))

/-- **The ancestors of a struct** are the structs on the way up from it. -/
theorem ancestors_eq_ok_iff (ht : t.Sound) :
    t.ancestors a = .ok above ↔ t.Knows a ∧ t.Lineage a above := by
  by_cases ha : t.Knows a
  · obtain ⟨s, hs⟩ := knows_iff.mp ha
    have hchain := lineage_chain ht (Nat.le_of_lt ha)
    rw [ancestors, get_eq_ok_iff_struct?.mpr hs]
    simp only [Except.map, Except.ok.injEq, ha, true_and]
    constructor
    · rintro rfl
      exact hchain
    · exact hchain.unique
  · have hget : t.get a = .error (.outOfBounds t.structs.size a.index) :=
      fetch_of_le (Nat.le_of_not_lt ha)
    rw [ancestors, hget]
    simp [Except.map, ha]

/-! ### The way down -/

/-- **The handles that have been given out**, in the order of the definitions. -/
def handles (t : Hierarchy) : List StructId := (List.range t.size).map StructId.mk

theorem mem_handles_iff : a ∈ t.handles ↔ t.Knows a := by
  simp only [handles, List.mem_map, List.mem_range, Knows]
  constructor
  · rintro ⟨i, hi, rfl⟩
    exact hi
  · intro h
    exact ⟨a.index, h, rfl⟩

theorem handles_sorted (t : Hierarchy) : t.handles.Pairwise (·.index < ·.index) :=
  List.pairwise_map.mpr List.pairwise_lt_range

/-- **The children of a struct** are the structs that name it as their parent, in the order of their
definition and each once. -/
theorem children_eq_filter (ht : t.Sound) {s : Struct} (hs : t.struct? a = some s) :
    s.children = t.handles.filter fun c => t.parent? c = some a := by
  -- both lists are sorted by handles, so that it is enough to compare their members
  have : Std.Irrefl (α := StructId) (·.index < ·.index) := ⟨fun x => Nat.lt_irrefl x.index⟩
  have : Std.Antisymm (α := StructId) (·.index < ·.index) :=
    ⟨fun _ _ h h' => absurd h' (Nat.lt_asymm h)⟩
  refine List.Pairwise.eq_of_mem_iff (ht.children_sorted a s hs)
    ((handles_sorted t).sublist List.filter_sublist) fun c => ?_
  simp only [ht.mem_children a s hs c, List.mem_filter, mem_handles_iff, decide_eq_true_eq]
  exact (and_iff_right_of_imp knows_of_parent?).symm

/-! ### The order -/

/-- Two structs above one another are the same. -/
theorem Extends.antisymm (ht : t.Sound) (h : t.Extends a b) (h' : t.Extends b a) : a = b :=
  StructId.index_inj.mp (Nat.le_antisymm (h'.index_le ht) (h.index_le ht))

/-- **A forest, as its look-ups tell**, with subtyping as its order. -/
structure IsForest (t : Hierarchy) : Prop where
  /-- A parent was given out before its children. -/
  parent_lt : ∀ a s p, t.get a = .ok s → s.parent = some p → p.index < a.index
  /-- The children of a struct are those that have it as their parent, in the order of their
  definition and each once. -/
  children_eq : ∀ a s, t.get a = .ok s →
    s.children = t.handles.filter fun c => t.parent? c = some a
  /-- The walk to the ancestors comes to its end, and handles decrease along it. -/
  ancestors : ∀ a, t.Knows a → ∃ above, t.ancestors a = .ok above ∧ t.Lineage a above ∧
    (a :: above).Pairwise fun x y => y.index < x.index
  /-- Subtyping is decided for every struct. -/
  decided : ∀ a b, t.Knows a → ∃ answer, t.isSubtype a b = .ok answer
  refl : ∀ a, t.Knows a → t.isSubtype a a = .ok true
  trans : ∀ a b c, t.Knows a → t.isSubtype a b = .ok true → t.isSubtype b c = .ok true →
    t.isSubtype a c = .ok true
  antisymm : ∀ a b, t.Knows a → t.isSubtype a b = .ok true → t.isSubtype b a = .ok true → a = b
  /-- Of two supertypes of a struct one is a supertype of the other. -/
  comparable : ∀ a b c, t.Knows a → t.isSubtype a b = .ok true → t.isSubtype a c = .ok true →
    t.isSubtype b c = .ok true ∨ t.isSubtype c b = .ok true

/-- **A sound hierarchy is a forest.** -/
theorem Sound.isForest (ht : t.Sound) : t.IsForest := by
  -- above a known struct there are known ones only, and among these subtyping decides the order
  have key : ∀ a b, t.Knows a → (t.isSubtype a b = .ok true ↔ t.Extends a b ∧ t.Knows b) := by
    intro a b ha
    rw [isSubtype_eq_ok_iff ht ha]
    exact (and_iff_left_of_imp fun h => h.knows ht ha).symm
  have walk : ∀ a, t.Knows a → t.ancestors a = .ok (t.chain t.size a) := fun a ha =>
    (ancestors_eq_ok_iff ht).mpr ⟨ha, lineage_chain ht (Nat.le_of_lt ha)⟩
  refine ⟨?_, ?_, ?_, ?_, ?_, ?_, ?_, ?_⟩
  · intro a s p hs hp
    refine ht.parent_lt a p ?_
    rw [parent?_eq, get_eq_ok_iff_struct?.mp hs]
    exact hp
  · intro a s hs
    exact children_eq_filter ht (get_eq_ok_iff_struct?.mp hs)
  · intro a ha
    have hl := lineage_chain ht (Nat.le_of_lt ha)
    exact ⟨_, walk a ha, hl, hl.decreasing ht⟩
  · intro a b ha
    unfold isSubtype
    split
    · exact ⟨true, rfl⟩
    · rw [walk a ha]
      exact ⟨_, rfl⟩
  · intro a ha
    exact (key a a ha).mpr ⟨.refl t a, ha⟩
  · intro a b c ha hab hbc
    obtain ⟨hab, hb⟩ := (key a b ha).mp hab
    obtain ⟨hbc, hc⟩ := (key b c hb).mp hbc
    exact (key a c ha).mpr ⟨hab.trans hbc, hc⟩
  · intro a b ha hab hba
    obtain ⟨hab, hb⟩ := (key a b ha).mp hab
    obtain ⟨hba, -⟩ := (key b a hb).mp hba
    exact hab.antisymm ht hba
  · intro a b c ha hab hac
    obtain ⟨hab, hb⟩ := (key a b ha).mp hab
    obtain ⟨hac, hc⟩ := (key a c ha).mp hac
    rcases hab.total hac with hbc | hcb
    · exact .inl ((key b c hb).mpr ⟨hbc, hc⟩)
    · exact .inr ((key c b hc).mpr ⟨hcb, hb⟩)

/-! ### Growth -/

/-- **`t'` has grown out of `t`**: the structs of `t` are there, with the parents that they had. -/
def Outgrows (t' t : Hierarchy) : Prop :=
  ∀ a, t.Knows a → t'.Knows a ∧ t'.parent? a = t.parent? a

namespace Outgrows

theorem refl (t : Hierarchy) : t.Outgrows t := fun _ ha => ⟨ha, rfl⟩

theorem trans (h' : t''.Outgrows t') (h : t'.Outgrows t) : t''.Outgrows t := by
  intro a ha
  obtain ⟨ha', hparent⟩ := h a ha
  obtain ⟨ha'', hparent'⟩ := h' a ha'
  exact ⟨ha'', hparent'.trans hparent⟩

theorem of_sameLinks (h : SameLinks t t') : t'.Outgrows t :=
  fun a ha => ⟨h.knows_iff.mpr ha, h.parent?_eq a⟩

/-- A definition leaves the parents of the old structs alone. -/
theorem attach {s : Struct} (hid : s.id = ⟨t.size⟩) (hp : ∀ p, s.parent = some p → t.Knows p) :
    (t.attach s).Outgrows t := by
  intro a ha
  refine ⟨(knows_attach_iff hid).mpr (.inr ha), ?_⟩
  rw [parent?_attach hid hp, if_neg]
  rintro rfl
  exact not_knows_new hid ha

/-- **Every change makes a hierarchy grow.** -/
theorem apply (ht : t.Sound) {change : Change} (h : ((t.apply change).run f).result = .ok t') :
    t'.Outgrows t := by
  cases change with
  | define d =>
    obtain ⟨id, hr⟩ := apply_define_eq_ok_iff.mp h
    obtain ⟨i, hi, -, rfl⟩ := define_eq_ok_iff.mp hr
    exact attach rfl (knows_parent_of_inherited hi)
  | method owner name proc => exact of_sameLinks (.registerMethod ht h)
  | static owner name proc =>
    obtain ⟨-, rfl⟩ := registerStatic_eq_ok_iff.mp h
    refine of_sameLinks (.update t owner ?_)
    exact fun _ => rfl

/-- So does a history. -/
theorem applyAll (ht : t.Sound) (h : ((t.applyAll changes).run f).result = .ok t') :
    t'.Outgrows t ∧ t'.Sound := by
  refine applyAll_induction (P := fun _ t' => t'.Outgrows t ∧ t'.Sound) ⟨refl t, ht⟩ ?_ h
  rintro changes t₁ change t₂ ⟨hgrows, ht₁⟩ hc
  exact ⟨(apply ht₁ hc).trans hgrows, ht₁.apply hc⟩

/-- The way up from an old struct passes old structs only. -/
theorem lineage (h : t'.Outgrows t) (ht : t.Sound) (hl : t.Lineage a above) (ha : t.Knows a) :
    t'.Lineage a above := by
  induction hl with
  | root orphan => exact .root ((h _ ha).2.trans orphan)
  | step parent rest ih =>
    exact .step ((h _ ha).2.trans parent) (ih (ht.knows_parent parent))

/-- **The answers about old structs stay what they were.** -/
theorem ancestors_eq (h : t'.Outgrows t) (ht : t.Sound) (ht' : t'.Sound) (ha : t.Knows a) :
    t'.ancestors a = t.ancestors a := by
  obtain ⟨above, habove, hl, -⟩ := ht.isForest.ancestors a ha
  rw [habove, ancestors_eq_ok_iff ht']
  exact ⟨(h a ha).1, h.lineage ht hl ha⟩

end Outgrows

/-! ### The result -/

/-- **Subtyping is a stable order on a forest.** Whatever structs have been defined since the
hierarchy was empty and whatever methods have been registered, parents come before their children and
both ends of every link agree, the walk to the ancestors comes to its end, and subtyping is an order in
which the supertypes of a struct are comparable. What is done later changes none of the answers about
the structs there are. -/
theorem subtyping_is_stable_order (h : ((empty.applyAll changes).run f).result = .ok t) :
    t.IsForest ∧ ∀ (f' : Log.Filter) (later : List Change) (t' : Hierarchy),
      ((t.applyAll later).run f').result = .ok t' → ∀ a, t.Knows a →
        t'.ancestors a = t.ancestors a ∧ ∀ b, t'.isSubtype a b = t.isSubtype a b := by
  have ht := sound_of_applyAll h
  refine ⟨ht.isForest, fun f' later t' h' a ha => ?_⟩
  obtain ⟨hgrows, ht'⟩ := Outgrows.applyAll ht h'
  have hancestors := hgrows.ancestors_eq ht ht' ha
  refine ⟨hancestors, fun b => ?_⟩
  unfold isSubtype
  rw [hancestors]

/-- A spaniel is a dog, and a dog is an animal. -/
def kennel : List Change :=
  [.define ⟨"Animal", [], none, ∅, false⟩, .define ⟨"Dog", [], some ⟨0⟩, ∅, false⟩,
    .define ⟨"Spaniel", [], some ⟨1⟩, ∅, false⟩]

/-- Another animal, and a method that all animals have. -/
def cattery : List Change :=
  [.define ⟨"Cat", [], some ⟨0⟩, ∅, false⟩, .method ⟨0⟩ "feed" ⟨0⟩]

/-- The cat is one more child of the animal, and makes no difference to the spaniel. -/
theorem spaniel_stays_dog :
    ∃ t t' animal, ((empty.applyAll kennel).run .off).result = .ok t ∧
      ((t.applyAll cattery).run .off).result = .ok t' ∧ t'.get ⟨0⟩ = .ok animal ∧
      animal.children = [⟨1⟩, ⟨3⟩] ∧ t'.ancestors ⟨2⟩ = .ok [⟨1⟩, ⟨0⟩] ∧
      t'.isSubtype ⟨2⟩ ⟨0⟩ = .ok true ∧ t'.isSubtype ⟨2⟩ ⟨3⟩ = .ok false := by
  obtain ⟨t, ht⟩ : ∃ t, ((empty.applyAll kennel).run .off).result = .ok t := ⟨_, rfl⟩
  have hstable := (subtyping_is_stable_order ht).2
  cases ht
  obtain ⟨hancestors, hsubtype⟩ :=
    hstable .off cattery _ rfl ⟨2⟩ (show 2 < 3 by decide)
  exact ⟨_, _, _, rfl, rfl, rfl, rfl, hancestors.trans rfl, (hsubtype ⟨0⟩).trans rfl,
    (hsubtype ⟨3⟩).trans rfl⟩

end StackFront.Hierarchy
