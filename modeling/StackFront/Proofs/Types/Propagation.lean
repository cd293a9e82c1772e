import StackFront.Proofs.Types.Forest
import StackFront.Proofs.Worklist

/-!
# How a method reaches the structs below its owner

Registering a method walks down the children lists with a work list. In a sound hierarchy this walk
is a walk over a finite tree: it visits the owner and every struct below it, each exactly once, and
comes to its end before its bound does (`exists_visits_below`).

* `takes_of_knows` lets the loop follow this order of visits.
* `registerMethod_eq_ok_iff` says when a registration succeeds and what it leaves behind, struct by
  struct.
-/

namespace StackFront

/-- A struct with a method entered, in place of any other of that name. -/
def Struct.withMethod (s : Struct) (name : String) (proc : ProcId) : Struct :=
  { s with methods := s.methods.insert name proc }

theorem Struct.method?_withMethod (s : Struct) (name : String) (proc : ProcId) (n : String) :
    (s.withMethod name proc).method? n = if name = n then some proc else s.method? n :=
  Table.get?_insert s.methods name proc n

namespace Hierarchy

open Worklist (Takes Visits)

variable {t t' : Hierarchy} {owner : StructId} {name : String} {proc : ProcId}

/-! ### The walk down the tree -/

/-- The handles that a visit puts on the work list: the children, the youngest first. -/
def nextVisits (t : Hierarchy) (id : StructId) : List StructId :=
  ((t.struct? id).map (·.children.reverse)).getD []

theorem mem_nextVisits_iff (ht : t.Sound) {a c : StructId} (ha : t.Knows a) :
    c ∈ t.nextVisits a ↔ t.parent? c = some a := by
  obtain ⟨s, hs⟩ := knows_iff.mp ha
  unfold nextVisits
  rw [hs, ← ht.mem_children a s hs]
  exact List.mem_reverse

theorem nextVisits_nodup (ht : t.Sound) (a : StructId) : (t.nextVisits a).Nodup := by
  unfold nextVisits
  rcases hs : t.struct? a with _ | s
  · exact List.nodup_nil
  · refine List.nodup_reverse.mpr ((ht.children_sorted a s hs).imp ?_)
    rintro x _ hlt rfl
    exact Nat.lt_irrefl _ hlt

/-- No struct lies below two children of the same struct. -/
theorem not_extends_siblings (ht : t.Sound) {a x y z : StructId} (hx : t.parent? x = some a)
    (hy : t.parent? y = some a) (hne : x ≠ y) (hzx : t.Extends z x) : ¬ t.Extends z y := by
  -- one of the siblings would lie strictly below the other, and so would their parent
  have key : ∀ x y, t.parent? x = some a → t.parent? y = some a → x ≠ y → ¬ t.Extends x y := by
    intro x y hx hy hne h
    obtain heq | ⟨p, hp, hpy⟩ := extends_iff.mp h
    · exact hne heq
    · obtain rfl := Option.some.inj (hx.symm.trans hp)
      have h₁ := hpy.index_le ht
      have h₂ := ht.parent_lt y a hy
      omega
  intro hzy
  rcases hzx.total hzy with h | h
  · exact key x y hx hy hne h
  · exact key y x hy hx hne.symm h

/-- An order of visits for each of several structs with nothing below two of them gives one for all
of them. -/
private theorem exists_visits_list {work : List StructId} (hnd : work.Nodup)
    (hdis : ∀ x ∈ work, ∀ y ∈ work, x ≠ y → ∀ z, t.Extends z x → ¬ t.Extends z y)
    (h : ∀ x ∈ work, ∃ order, Visits t.nextVisits [x] order ∧ order.Nodup ∧
      ∀ z, z ∈ order ↔ t.Extends z x) :
    ∃ order, Visits t.nextVisits work order ∧ order.Nodup ∧
      ∀ z, z ∈ order ↔ ∃ x ∈ work, t.Extends z x := by
  induction work with
  | nil => exact ⟨[], .nil, List.nodup_nil, by simp⟩
  | cons x work ih =>
    obtain ⟨o, ho, hond, homem⟩ := h x List.mem_cons_self
    obtain ⟨o', ho', hond', homem'⟩ := ih (List.nodup_cons.mp hnd).2
      (fun y hy z hz => hdis y (List.mem_cons_of_mem x hy) z (List.mem_cons_of_mem x hz))
      (fun y hy => h y (List.mem_cons_of_mem x hy))
    refine ⟨o ++ o', ho.append ho', ?_, ?_⟩
    · -- a struct in both orders would lie below two of the structs on the work list
      rw [List.nodup_append]
      refine ⟨hond, hond', ?_⟩
      rintro z hz _ hz' rfl
      obtain ⟨y, hy, hzy⟩ := (homem' z).mp hz'
      have hne : x ≠ y := by
        rintro rfl
        exact (List.nodup_cons.mp hnd).1 hy
      exact hdis x List.mem_cons_self y (List.mem_cons_of_mem x hy) hne z ((homem z).mp hz) hzy
    · intro z
      simp only [List.mem_append, homem, homem', List.exists_mem_cons_iff]

/-- **The walk below a struct** visits the struct and all those below it, each exactly once. -/
theorem exists_visits_below (ht : t.Sound) {a : StructId} (ha : t.Knows a) :
    ∃ order, Visits t.nextVisits [a] order ∧ order.Nodup ∧ ∀ z, z ∈ order ↔ t.Extends z a := by
  -- by induction on the number of structs behind `a`: children stand behind their parent
  induction hn : t.size - a.index using Nat.strongRecOn generalizing a with
  | ind n ih =>
    have hchild : ∀ x ∈ t.nextVisits a, t.parent? x = some a :=
      fun x hx => (mem_nextVisits_iff ht ha).mp hx
    obtain ⟨order, hv, hnd, hmem⟩ := exists_visits_list (nextVisits_nodup ht a)
      (fun x hx y hy hne z => not_extends_siblings ht (hchild x hx) (hchild y hy) hne)
      (fun x hx => by
        have hlt := ht.parent_lt x a (hchild x hx)
        have hk : x.index < t.size := knows_of_parent? (hchild x hx)
        exact ih (t.size - x.index) (by omega) hk rfl)
    refine ⟨a :: order, .cons (by simpa using hv), List.nodup_cons.mpr ⟨?_, hnd⟩, ?_⟩
    · -- `a` is not visited again, since no child of it has an index as small
      intro h
      obtain ⟨x, hx, hax⟩ := (hmem a).mp h
      have h₁ := hax.index_le ht
      have h₂ := ht.parent_lt x a (hchild x hx)
      omega
    · intro z
      rw [List.mem_cons, hmem]
      constructor
      · rintro (rfl | ⟨x, hx, hzx⟩)
        · exact .refl t z
        · exact hzx.trans (.of_parent (hchild x hx))
      · intro h
        rcases Relation.ReflTransGen.cases_tail h with heq | ⟨x, hzx, hxa⟩
        · exact .inl heq.symm
        · exact .inr ⟨x, (mem_nextVisits_iff ht ha).mpr hxa, hzx⟩

/-! ### What a registration leaves behind -/

/-- What the walk does when it visits a struct. -/
def visited (name : String) (proc : ProcId) (t : Hierarchy) (id : StructId) : Hierarchy :=
  t.update id fun s => s.withMethod name proc

theorem SameLinks.visited (t : Hierarchy) (a : StructId) :
    SameLinks t (visited name proc t a) :=
  SameLinks.update t a fun _ => rfl

/-- The walk sees the same children whatever methods it has entered. -/
private theorem enterMethod_eq (h : SameLinks t t') {a : StructId} (ha : t.Knows a) :
    enterMethod name proc t' a = .ok (visited name proc t' a, t.nextVisits a) := by
  obtain ⟨s', hs'⟩ := knows_iff.mp (h.knows_iff.mpr ha)
  obtain ⟨s, hs, hl⟩ := h.exists_struct hs'
  obtain ⟨-, -, hc⟩ := Struct.links_eq_iff.mp hl
  rw [enterMethod, get_eq_ok_iff_struct?.mpr hs', nextVisits, hs]
  simp only [Except.map, Option.map_some, Option.getD_some, hc]
  rfl

/-- Visits along a list without repetitions change the structs on the list, each once. -/
private theorem struct?_foldl_visited (name : String) (proc : ProcId) {order : List StructId}
    (hnd : order.Nodup) (t : Hierarchy) (a : StructId) :
    (order.foldl (visited name proc) t).struct? a =
      if a ∈ order then (t.struct? a).map (·.withMethod name proc) else t.struct? a := by
  induction order generalizing t with
  | nil => rfl
  | cons x order ih =>
    obtain ⟨hx, hnd⟩ := List.nodup_cons.mp hnd
    rw [List.foldl_cons, ih hnd, visited, struct?_update]
    by_cases hxa : x = a
    · -- the struct has its visit now, and none later
      subst hxa
      rw [if_neg hx, if_pos rfl, if_pos List.mem_cons_self]
    · have hmem : a ∈ x :: order ↔ a ∈ order :=
        ⟨fun h => (List.mem_cons.mp h).resolve_left (Ne.symm hxa), List.mem_cons_of_mem x⟩
      simp only [if_neg hxa, hmem]

/-- **The walk comes to its end**, and what it leaves is described struct by struct. -/
theorem takes_of_knows (ht : t.Sound) (ho : t.Knows owner) (name : String) (proc : ProcId) :
    ∃ order, Takes (enterMethod name proc) t [owner] order (order.foldl (visited name proc) t) ∧
      order.Nodup ∧ ∀ a, a ∈ order ↔ t.Extends a owner := by
  obtain ⟨order, hv, hnd, hmem⟩ := exists_visits_below ht ho
  have hk : ∀ a ∈ order, t.Knows a := fun a ha => ((hmem a).mp ha).knows_left ho
  refine ⟨order, ?_, hnd, hmem⟩
  -- the loop never leaves the hierarchies with the links of `t`, where the walk is the same
  refine Takes.of_visits (P := SameLinks t) hv ?_ (.refl t)
  intro s hs x hx
  exact ⟨enterMethod_eq hs (hk x hx), hs.trans (.visited s x)⟩

/-- The bound of the loop admits the walk: no struct is visited twice. -/
theorem propagate_of_takes {order : List StructId} (ho : t.Knows owner)
    (h : Takes (enterMethod name proc) t [owner] order t') (hnd : order.Nodup)
    (hmem : ∀ a, a ∈ order ↔ t.Extends a owner) :
    t.propagate name proc [owner] = .ok (t', []) := by
  refine h.run_eq (Nat.le_succ_of_le ?_)
  exact Worklist.length_le_of_nodup (fun _ _ => StructId.index_inj.mp) hnd
    fun a ha => ((hmem a).mp ha).knows_left ho

theorem propagate_of_not_knows (ho : ¬ t.Knows owner) :
    t.propagate name proc [owner] = .error (.outOfBounds t.size owner.index) := by
  have hget : t.get owner = .error (.outOfBounds t.size owner.index) :=
    fetch_of_le (Nat.le_of_not_lt ho)
  rw [propagate, Worklist.run_cons, enterMethod, hget]
  rfl

theorem ext_struct? (h : ∀ a, t.struct? a = t'.struct? a) : t = t' := by
  cases t
  cases t'
  exact congrArg Hierarchy.mk (Array.ext_getElem? fun i => h ⟨i⟩)

variable {f : Log.Filter}

/-- The name of the owner is looked up for the log when the method has been entered, and found. -/
theorem result_registerMethod {order : List StructId} (ho : t.Knows owner)
    (hnd : order.Nodup) (hmem : owner ∈ order)
    (h : t.propagate name proc [owner] = .ok (order.foldl (visited name proc) t, [])) :
    ((t.registerMethod owner name proc).run f).result =
      .ok (order.foldl (visited name proc) t) := by
  obtain ⟨s, hs⟩ := knows_iff.mp ho
  have hget : (order.foldl (visited name proc) t).get owner = .ok (s.withMethod name proc) := by
    rw [get_eq_ok_iff_struct?, struct?_foldl_visited name proc hnd, if_pos hmem, hs]
    rfl
  rw [registerMethod, Step.result_bind, Step.result_monadLift, h, ok_bind, Step.result_bind,
    Step.result_record, hget]
  split <;> rfl

open Classical in
/-- **Registering a method** enters it for the structs at and below its owner, and changes nothing
else; it succeeds exactly if the owner exists. -/
theorem registerMethod_eq_ok_iff (ht : t.Sound) :
    ((t.registerMethod owner name proc).run f).result = .ok t' ↔
      t.Knows owner ∧ ∀ a, t'.struct? a =
        if t.Extends a owner then (t.struct? a).map (·.withMethod name proc) else t.struct? a := by
  by_cases ho : t.Knows owner
  · obtain ⟨order, htakes, hnd, hmem⟩ := takes_of_knows ht ho name proc
    have hp := propagate_of_takes ho htakes hnd hmem
    have hstruct := struct?_foldl_visited name proc hnd t
    simp only [hmem] at hstruct
    rw [result_registerMethod ho hnd ((hmem owner).mpr (.refl t owner)) hp, Except.ok.injEq]
    constructor
    · rintro rfl
      exact ⟨ho, hstruct⟩
    · rintro ⟨-, h⟩
      exact ext_struct? fun a => (hstruct a).trans (h a).symm
  · rw [registerMethod, Step.result_bind, Step.result_monadLift, propagate_of_not_knows ho]
    simp [ho]

theorem exists_registerMethod (ht : t.Sound) (ho : t.Knows owner) (name : String) (proc : ProcId)
    (f : Log.Filter) :
    ∃ t', ((t.registerMethod owner name proc).run f).result = .ok t' := by
  obtain ⟨order, htakes, hnd, hmem⟩ := takes_of_knows ht ho name proc
  have hp := propagate_of_takes ho htakes hnd hmem
  exact ⟨_, result_registerMethod ho hnd ((hmem owner).mpr (.refl t owner)) hp⟩

theorem SameLinks.registerMethod (ht : t.Sound)
    (h : ((t.registerMethod owner name proc).run f).result = .ok t') : SameLinks t t' := by
  classical
  intro a
  rw [((registerMethod_eq_ok_iff ht).mp h).2 a]
  split
  · cases t.struct? a <;> rfl
  · rfl

end Hierarchy

end StackFront
