import Mathlib.Logic.Relation
import StackFront.Types.Hierarchy

/-!
# The struct hierarchy as a forest

A hierarchy keeps its links at both ends, and walks along them with bounds taken from its size. What
makes this right is an invariant that every operation keeps, `Hierarchy.Sound`: a parent was given
out before its children, and the children of a struct are the structs that name it as their parent,
in the order of their definition.

* `Extends` is the order that subtyping decides: the reflexive, transitive closure of the parent
  link. Indices decrease along it (`Extends.index_le`), the structs above one struct form a chain
  (`Extends.total`), and `isSubtype` decides it (`isSubtype_eq_ok_iff`).
* `SameLinks` relates two hierarchies that differ in nothing that the invariant speaks of.
* `Sound.attach` is the preservation of the invariant by a definition; `extends_attach_iff` and
  `extends_new_iff` say what a definition does to the order.
-/

namespace StackFront

theorem StructId.index_inj {a b : StructId} : a.index = b.index ↔ a = b := by
  cases a
  cases b
  exact (StructId.mk.injEq _ _).symm.to_iff

/-- What ties a struct into its hierarchy. -/
def Struct.links (s : Struct) : StructId × Option StructId × List StructId :=
  (s.id, s.parent, s.children)

theorem Struct.links_eq_iff {s s' : Struct} :
    s.links = s'.links ↔ s.id = s'.id ∧ s.parent = s'.parent ∧ s.children = s'.children := by
  simp only [links, Prod.mk.injEq]

namespace Hierarchy

variable {t : Hierarchy} {a b c : StructId}

/-! ### Looking at single structs -/

/-- The struct of a handle, if the handle has been given out. -/
def struct? (t : Hierarchy) (id : StructId) : Option Struct := t.structs[id.index]?

/-- The handle has been given out. -/
def Knows (t : Hierarchy) (id : StructId) : Prop := id.index < t.size

theorem get_eq_ok_iff_struct? {s : Struct} : t.get a = .ok s ↔ t.struct? a = some s :=
  get_eq_ok_iff

theorem parent?_eq (t : Hierarchy) (a : StructId) : t.parent? a = (t.struct? a).bind (·.parent) :=
  rfl

theorem knows_iff : t.Knows a ↔ ∃ s, t.struct? a = some s := by
  constructor
  · intro h
    have hlt : a.index < t.structs.size := h
    exact ⟨t.structs[a.index], Array.getElem?_eq_getElem hlt⟩
  · rintro ⟨s, hs⟩
    obtain ⟨h, -⟩ := Array.getElem?_eq_some_iff.mp hs
    exact h

theorem Knows.of_struct? {s : Struct} (h : t.struct? a = some s) : t.Knows a :=
  knows_iff.mpr ⟨s, h⟩

theorem Knows.exists_get (h : t.Knows a) : ∃ s, t.get a = .ok s := by
  obtain ⟨s, hs⟩ := knows_iff.mp h
  exact ⟨s, get_eq_ok_iff_struct?.mpr hs⟩

theorem knows_of_parent? (h : t.parent? a = some b) : t.Knows a := by
  rw [parent?_eq] at h
  obtain ⟨s, hs, -⟩ := Option.bind_eq_some_iff.mp h
  exact .of_struct? hs

/-- A change of one struct shows at its handle and nowhere else. -/
theorem struct?_update (t : Hierarchy) (a : StructId) (change : Struct → Struct) (b : StructId) :
    (t.update a change).struct? b = if a = b then (t.struct? b).map change else t.struct? b := by
  unfold update struct?
  rw [Array.getElem?_modify]
  simp only [StructId.index_inj]

@[simp] theorem size_update (t : Hierarchy) (a : StructId) (change : Struct → Struct) :
    (t.update a change).size = t.size :=
  Array.size_modify

/-! ### The invariant -/

/-- **What every hierarchy satisfies that has been built by its operations.** -/
structure Sound (t : Hierarchy) : Prop where
  /-- Every struct stands at the position of its handle. -/
  id_eq : ∀ a s, t.struct? a = some s → s.id = a
  /-- A parent was given out before its children. -/
  parent_lt : ∀ a b, t.parent? a = some b → b.index < a.index
  /-- The children of a struct are those that name it as their parent. -/
  mem_children : ∀ a s, t.struct? a = some s → ∀ c, c ∈ s.children ↔ t.parent? c = some a
  /-- Children are listed in the order of their definition. -/
  children_sorted : ∀ a s, t.struct? a = some s → s.children.Pairwise (·.index < ·.index)

theorem Sound.empty : Sound .empty where
  id_eq := fun _ _ h => absurd h (by simp [struct?, Hierarchy.empty])
  parent_lt := fun _ _ h => absurd h (by simp [parent?, Hierarchy.empty])
  mem_children := fun _ _ h => absurd h (by simp [struct?, Hierarchy.empty])
  children_sorted := fun _ _ h => absurd h (by simp [struct?, Hierarchy.empty])

theorem Sound.knows_parent (ht : t.Sound) (h : t.parent? a = some b) : t.Knows b :=
  Nat.lt_trans (ht.parent_lt a b h) (knows_of_parent? h)

/-! ### The order of subtyping -/

/-- **`a` is `b` or lies below it.** -/
def Extends (t : Hierarchy) : StructId → StructId → Prop :=
  Relation.ReflTransGen fun x y => t.parent? x = some y

theorem Extends.refl (t : Hierarchy) (a : StructId) : t.Extends a a := Relation.ReflTransGen.refl

theorem Extends.trans (h₁ : t.Extends a b) (h₂ : t.Extends b c) : t.Extends a c :=
  Relation.ReflTransGen.trans h₁ h₂

theorem Extends.of_parent (h : t.parent? a = some b) : t.Extends a b :=
  Relation.ReflTransGen.single h

/-- What lies above a struct is the struct itself, or lies above its parent. -/
theorem extends_iff : t.Extends a b ↔ a = b ∨ ∃ p, t.parent? a = some p ∧ t.Extends p b := by
  constructor
  · intro h
    exact Relation.ReflTransGen.cases_head h
  · rintro (rfl | ⟨p, hp, h⟩)
    · exact .refl t a
    · exact (Extends.of_parent hp).trans h

theorem Extends.index_le (ht : t.Sound) (h : t.Extends a b) : b.index ≤ a.index := by
  induction h with
  | refl => exact Nat.le_refl _
  | tail _ hbc ih => exact Nat.le_trans (Nat.le_of_lt (ht.parent_lt _ _ hbc)) ih

theorem Extends.knows (ht : t.Sound) (h : t.Extends a b) (ha : t.Knows a) : t.Knows b :=
  Nat.lt_of_le_of_lt (h.index_le ht) ha

/-- What lies below a known struct is known. -/
theorem Extends.knows_left (h : t.Extends a b) (hb : t.Knows b) : t.Knows a := by
  rcases extends_iff.mp h with rfl | ⟨p, hp, -⟩
  · exact hb
  · exact knows_of_parent? hp

/-- The structs above one struct form a chain. -/
theorem Extends.total (hb : t.Extends a b) (hc : t.Extends a c) : t.Extends b c ∨ t.Extends c b :=
  Relation.ReflTransGen.total_of_right_unique
    (fun _ _ _ h₁ h₂ => Option.some.inj (h₁.symm.trans h₂)) hb hc

/-- The chain of ancestors holds what lies strictly above, as long as the bound is not smaller than
the index it starts from. -/
theorem mem_chain_iff (ht : t.Sound) {n : Nat} (hn : a.index ≤ n) :
    b ∈ t.chain n a ↔ ∃ p, t.parent? a = some p ∧ t.Extends p b := by
  induction n generalizing a with
  | zero =>
    -- a struct of index zero has no parent, since indices decrease on the way up
    have hnone : ∀ p, t.parent? a ≠ some p := fun p hp => by
      have := ht.parent_lt a p hp
      omega
    simp [chain, hnone]
  | succ n ih =>
    unfold chain
    rcases hp : t.parent? a with _ | p
    · simp
    · have hlt := ht.parent_lt a p hp
      simp only [List.mem_cons, Option.some.injEq, exists_eq_left']
      rw [ih (by omega), extends_iff, eq_comm]

/-- **Subtyping decides the order.** -/
theorem isSubtype_eq_ok_iff (ht : t.Sound) (ha : t.Knows a) :
    t.isSubtype a b = .ok true ↔ t.Extends a b := by
  unfold isSubtype ancestors
  by_cases hab : a = b
  · -- a struct counts as its own subtype without a look at the chain
    rw [if_pos hab]
    exact ⟨fun _ => hab ▸ .refl t a, fun _ => rfl⟩
  · obtain ⟨s, hs⟩ := knows_iff.mp ha
    rw [if_neg hab, get_eq_ok_iff_struct?.mpr hs, extends_iff]
    simp only [Except.map, Except.ok.injEq, List.contains_iff_mem, hab, false_or]
    exact mem_chain_iff ht (Nat.le_of_lt ha)

/-- Whoever asks: a handle that was not given out is no subtype of one that was. -/
theorem isSubtype_iff_extends (ht : t.Sound) (hb : t.Knows b) :
    t.isSubtype a b = .ok true ↔ t.Extends a b := by
  by_cases ha : t.Knows a
  · exact isSubtype_eq_ok_iff ht ha
  · have hne : a ≠ b := by
      rintro rfl
      exact ha hb
    have hget : t.get a = .error (.outOfBounds t.size a.index) := fetch_of_le (Nat.le_of_not_lt ha)
    -- the look-up is a fault, and there is no way up from `a`
    unfold isSubtype ancestors
    rw [if_neg hne, hget]
    exact iff_of_false (fun h => by cases h) fun h => ha (h.knows_left hb)

/-! ### Changes that leave the links alone -/

/-- `t'` has the structs of `t`, tied together as they are there. -/
def SameLinks (t t' : Hierarchy) : Prop :=
  ∀ a, (t'.struct? a).map Struct.links = (t.struct? a).map Struct.links

namespace SameLinks

variable {t' t'' : Hierarchy}

theorem refl (t : Hierarchy) : SameLinks t t := fun _ => rfl

theorem trans (h₁ : SameLinks t t') (h₂ : SameLinks t' t'') : SameLinks t t'' :=
  fun a => (h₂ a).trans (h₁ a)

/-- A change of one struct that leaves its links alone leaves all links alone. -/
theorem update (t : Hierarchy) (a : StructId) {change : Struct → Struct}
    (hc : ∀ s, (change s).links = s.links) : SameLinks t (t.update a change) := by
  intro b
  rw [struct?_update]
  split
  · cases t.struct? b with
    | none => rfl
    | some s => exact congrArg some (hc s)
  · rfl

variable (h : SameLinks t t')

include h

theorem exists_struct {s' : Struct} (hs' : t'.struct? a = some s') :
    ∃ s, t.struct? a = some s ∧ s.links = s'.links := by
  have ha := h a
  rw [hs'] at ha
  exact Option.map_eq_some_iff.mp ha.symm

theorem knows_iff : t'.Knows a ↔ t.Knows a := by
  have ha := congrArg Option.isSome (h a)
  rw [Option.isSome_map, Option.isSome_map] at ha
  rw [Hierarchy.knows_iff, Hierarchy.knows_iff, ← Option.isSome_iff_exists,
    ← Option.isSome_iff_exists, ha]

theorem size_eq : t'.size = t.size := by
  have key : ∀ n, n < t'.size ↔ n < t.size := fun n => h.knows_iff (a := ⟨n⟩)
  have h₁ := key t.size
  have h₂ := key t'.size
  omega

theorem parent?_eq (a : StructId) : t'.parent? a = t.parent? a := by
  have key : ∀ u : Hierarchy, u.parent? a = ((u.struct? a).map Struct.links).bind (·.2.1) := by
    intro u
    rw [Hierarchy.parent?_eq]
    cases u.struct? a <;> rfl
  rw [key, key, h a]

theorem extends_iff : t'.Extends a b ↔ t.Extends a b := by
  unfold Extends
  simp only [h.parent?_eq]

/-- The invariant speaks of links only. -/
theorem sound (ht : t.Sound) : t'.Sound := by
  refine ⟨?_, ?_, ?_, ?_⟩
  · intro a s' hs'
    obtain ⟨s, hs, hl⟩ := h.exists_struct hs'
    obtain ⟨hid, -, -⟩ := Struct.links_eq_iff.mp hl
    rw [← hid]
    exact ht.id_eq a s hs
  · intro a b hab
    rw [h.parent?_eq] at hab
    exact ht.parent_lt a b hab
  · intro a s' hs' c
    obtain ⟨s, hs, hl⟩ := h.exists_struct hs'
    obtain ⟨-, -, hc⟩ := Struct.links_eq_iff.mp hl
    rw [h.parent?_eq, ← hc]
    exact ht.mem_children a s hs c
  · intro a s' hs'
    obtain ⟨s, hs, hl⟩ := h.exists_struct hs'
    obtain ⟨-, -, hc⟩ := Struct.links_eq_iff.mp hl
    rw [← hc]
    exact ht.children_sorted a s hs

end SameLinks

/-! ### Definition -/

/-- What a definition does to the single structs: the new one stands at the end, and its parent has
one child more. -/
theorem struct?_attach {s : Struct} (hid : s.id = ⟨t.size⟩)
    (hp : ∀ p, s.parent = some p → t.Knows p) (x : StructId) :
    (t.attach s).struct? x =
      if x = s.id then some s
      else if s.parent = some x then
        (t.struct? x).map fun p => { p with children := p.children ++ [s.id] }
      else t.struct? x := by
  have hgrown : (⟨t.structs.push s⟩ : Hierarchy).struct? x =
      if x = s.id then some s else t.struct? x := by
    unfold struct?
    rw [Array.getElem?_push, hid]
    simp only [← StructId.index_inj]
    rfl
  unfold attach
  rcases h : s.parent with _ | p
  · simpa using hgrown
  · -- the parent is an old struct, so that it is not the one that was appended
    have hne : p ≠ s.id := by
      rintro rfl
      have hlt : s.id.index < t.size := hp _ h
      rw [hid] at hlt
      exact absurd hlt (Nat.lt_irrefl _)
    simp only [struct?_update, hgrown, Option.some.injEq]
    by_cases hx : x = s.id
    · subst hx
      rw [if_neg hne, if_pos rfl, if_pos rfl]
    · rw [if_neg hx, if_neg hx]

@[simp] theorem size_attach (t : Hierarchy) (s : Struct) : (t.attach s).size = t.size + 1 := by
  unfold attach
  rcases s.parent with _ | p
  · exact Array.size_push s
  · rw [size_update]
    exact Array.size_push s

section Attach

variable {s : Struct} (hid : s.id = ⟨t.size⟩) (hp : ∀ p, s.parent = some p → t.Knows p)

include hid

theorem not_knows_new : ¬ t.Knows s.id := by
  rw [hid]
  exact Nat.lt_irrefl _

theorem knows_attach_iff : (t.attach s).Knows a ↔ a = s.id ∨ t.Knows a := by
  unfold Knows
  rw [size_attach, hid, ← StructId.index_inj, Nat.lt_succ_iff_lt_or_eq, or_comm]

include hp

/-- A definition changes no parent link. -/
theorem parent?_attach (x : StructId) :
    (t.attach s).parent? x = if x = s.id then s.parent else t.parent? x := by
  rw [parent?_eq, struct?_attach hid hp]
  by_cases hx : x = s.id
  · rw [if_pos hx, if_pos hx]
    rfl
  · rw [if_neg hx, if_neg hx, parent?_eq]
    split
    · cases t.struct? x <;> rfl
    · rfl

/-- **A definition keeps the invariant.** -/
theorem Sound.attach (ht : t.Sound) (hc : s.children = []) : (t.attach s).Sound := by
  have hparent := parent?_attach hid hp
  -- the parent of `x` is the new struct only if it was given out before it was defined
  have hfresh : ∀ x, (t.attach s).parent? x ≠ some s.id := by
    intro x hx
    rw [hparent] at hx
    split at hx
    · exact not_knows_new hid (hp _ hx)
    · exact not_knows_new hid (ht.knows_parent hx)
  refine ⟨?_, ?_, ?_, ?_⟩
  · -- every struct stands at the position of its handle, the new one at the end
    intro a s' h
    rw [struct?_attach hid hp] at h
    split at h
    · next ha => rw [← Option.some.inj h, ha]
    · split at h
      · obtain ⟨p, hp', rfl⟩ := Option.map_eq_some_iff.mp h
        exact ht.id_eq a p hp'
      · exact ht.id_eq a s' h
  · -- the parent of the new struct was known, and so has a smaller index
    intro a b h
    rw [hparent] at h
    split at h
    · next ha =>
      subst ha
      rw [hid]
      exact hp b h
    · exact ht.parent_lt a b h
  · -- the new struct has no children, its parent has one more, and no other list has changed
    intro a s' h c
    rw [struct?_attach hid hp] at h
    split at h
    · next ha =>
      subst ha
      obtain rfl := Option.some.inj h
      simpa [hc] using hfresh c
    · next ha =>
      rw [hparent]
      split at h
      · next hpa =>
        obtain ⟨p, hp', rfl⟩ := Option.map_eq_some_iff.mp h
        have hold := ht.mem_children a p hp' c
        by_cases hcs : c = s.id
        · simp [hcs, hpa]
        · simp [hcs, hold]
      · next hpa =>
        have hold := ht.mem_children a s' h c
        by_cases hcs : c = s.id
        · have hnone : t.parent? s.id ≠ some a :=
            fun hk => not_knows_new hid (knows_of_parent? hk)
          rw [if_pos hcs, hold, hcs]
          exact iff_of_false hnone hpa
        · rw [if_neg hcs]
          exact hold
  · -- the child that is appended was given out last
    intro a s' h
    rw [struct?_attach hid hp] at h
    split at h
    · obtain rfl := Option.some.inj h
      rw [hc]
      exact List.Pairwise.nil
    · split at h
      · obtain ⟨p, hp', rfl⟩ := Option.map_eq_some_iff.mp h
        refine List.pairwise_append.mpr
          ⟨ht.children_sorted a p hp', List.pairwise_singleton _ _, ?_⟩
        intro x hx y hy
        have hxk : t.Knows x := knows_of_parent? ((ht.mem_children a p hp' x).mp hx)
        rw [List.mem_singleton.mp hy, hid]
        exact hxk
      · exact ht.children_sorted a s' h

/-- A definition leaves the order of the old structs alone. -/
theorem extends_attach_iff (ht : t.Sound) (ha : t.Knows a) :
    (t.attach s).Extends a b ↔ t.Extends a b := by
  -- the way up from an old struct never meets the new one
  have hstep : ∀ x y, t.Knows x → ((t.attach s).parent? x = some y ↔ t.parent? x = some y) := by
    intro x y hx
    rw [parent?_attach hid hp, if_neg (by rintro rfl; exact not_knows_new hid hx)]
  constructor
  · intro h
    induction h with
    | refl => exact .refl t a
    | tail _ hbc ih => exact ih.trans (.of_parent ((hstep _ _ (ih.knows ht ha)).mp hbc))
  · intro h
    induction h with
    | refl => exact .refl _ a
    | tail hab hbc ih =>
      -- what is met on the way up is known, and so keeps its parent
      have hk := Extends.knows ht hab ha
      exact ih.trans (.of_parent ((hstep _ _ hk).mpr hbc))

/-- What lies above a new struct: the struct itself, and what lies above its parent. -/
theorem extends_new_iff (ht : t.Sound) :
    (t.attach s).Extends s.id b ↔ s.id = b ∨ ∃ p, s.parent = some p ∧ t.Extends p b := by
  rw [extends_iff, parent?_attach hid hp, if_pos rfl]
  refine or_congr Iff.rfl (exists_congr fun p => and_congr_right fun h => ?_)
  exact extends_attach_iff hid hp ht (hp p h)

end Attach

end Hierarchy

end StackFront
