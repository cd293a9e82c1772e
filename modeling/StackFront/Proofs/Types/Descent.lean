import StackFront.Proofs.Types.History

/-!
# The walk of a registration

A method is carried down from its owner by a loop that knows nothing of the tree it walks. It keeps
no note of where it has been, it takes the youngest child of the last struct first and so mixes the
levels, and it would run for ever around a circle. That it is over after one visit to each subtype
of the owner is due to the links: they make a forest, and the children of a struct are listed once.

Here the walk is described as the loop goes, without the bound that it is run with
(`Worklist.Takes`), for every hierarchy that has a history.

* `Carried` is what the walk leaves of the single structs.
* `registration_visits_subtree_once` is the result.
-/

namespace StackFront.Hierarchy

open Worklist (Takes)

variable {t t' : Hierarchy} {f : Log.Filter} {changes : List Change} {a owner : StructId}
  {name : String} {proc : ProcId}

/-- **A method has been carried** to some structs: it is what they have under its name now. Nothing
else has become of any struct. -/
structure Carried (t t' : Hierarchy) (reached : StructId → Prop) (name : String) (proc : ProcId) :
    Prop where
  size_eq : t'.size = t.size
  /-- The structs that have the method are those that it was carried to, and those that had it. -/
  method?_iff : ∀ a st st', t.get a = .ok st → t'.get a = .ok st' →
    (st'.method? name = some proc ↔ reached a ∨ st.method? name = some proc)
  /-- Where it was not carried to, the name means what it did. -/
  unreached : ∀ a, ¬ reached a → t'.get a = t.get a
  /-- So do the other names, everywhere. -/
  other : ∀ a st st', t.get a = .ok st → t'.get a = .ok st' → ∀ n, n ≠ name →
    st'.method? n = st.method? n
  /-- And nothing but the methods of a struct is written. -/
  rest : ∀ a st, t.get a = .ok st → ∃ methods, t'.get a = .ok { st with methods }

/-- A registration carries the method to the subtypes of its owner. -/
theorem carried_registerMethod (ht : t.Sound)
    (hr : ((t.registerMethod owner name proc).run f).result = .ok t') :
    Carried t t' (fun a => t.isSubtype a owner = .ok true) name proc := by
  have hget := get_registerMethod ht hr
  have hstruct : ∀ a st, t.get a = .ok st →
      t'.get a = .ok (if t.isSubtype a owner = .ok true then st.withMethod name proc else st) := by
    intro a st hst
    rw [hget, hst]
    rfl
  refine ⟨(SameLinks.registerMethod ht hr).size_eq, ?_, ?_, ?_, ?_⟩
  · intro a st st' hst hst'
    obtain rfl := Except.ok.inj ((hstruct a st hst).symm.trans hst')
    by_cases hsub : t.isSubtype a owner = .ok true
    · simp only [hsub, if_true, Struct.method?_withMethod, true_or]
    · rw [if_neg hsub]
      exact (or_iff_right hsub).symm
  · intro a hsub
    rw [hget]
    simp only [hsub, if_false]
    cases t.get a <;> rfl
  · intro a st st' hst hst' n hn
    obtain rfl := Except.ok.inj ((hstruct a st hst).symm.trans hst')
    split
    · rw [Struct.method?_withMethod, if_neg (Ne.symm hn)]
    · rfl
  · intro a st hst
    rw [hstruct a st hst]
    split
    · exact ⟨_, rfl⟩
    · exact ⟨st.methods, rfl⟩

/-- **A registration visits the subtypes of its owner, each exactly once**, whatever structs have been
defined and whatever methods have been registered before. The loop takes them off its work list one
after the other and then has nothing left to do; what it leaves behind is the method, carried to the
structs that it has visited. -/
theorem registration_visits_subtree_once (h : ((empty.applyAll changes).run f).result = .ok t)
    (ho : t.Knows owner) (name : String) (proc : ProcId) :
    ∃ order t', Takes (enterMethod name proc) t [owner] order t' ∧
      order.Nodup ∧ (∀ a, a ∈ order ↔ t.isSubtype a owner = .ok true) ∧
      t.propagate name proc [owner] = .ok (t', []) ∧
      (∀ f', ((t.registerMethod owner name proc).run f').result = .ok t') ∧
      Carried t t' (fun a => t.isSubtype a owner = .ok true) name proc := by
  have ht := sound_of_applyAll h
  obtain ⟨order, htakes, hnd, hmem⟩ := takes_of_knows ht ho name proc
  have hpropagate := propagate_of_takes ho htakes hnd hmem
  -- what is registered is what the loop leaves, under every filter of the log
  have hregister : ∀ f', ((t.registerMethod owner name proc).run f').result =
      .ok (order.foldl (visited name proc) t) :=
    fun f' => result_registerMethod ho hnd ((hmem owner).mpr (.refl t owner)) hpropagate
  refine ⟨order, _, htakes, hnd, fun a => ?_, hpropagate, hregister,
    carried_registerMethod ht (hregister f)⟩
  rw [hmem, isSubtype_iff_extends ht ho]

/-- Two widgets below a third one, one of them with a widget of its own, and a timer that is none. -/
def widgets : List Change :=
  [.define ⟨"Widget", [], none, ∅, false⟩, .define ⟨"Button", [], some ⟨0⟩, ∅, false⟩,
    .define ⟨"Toggle", [], some ⟨1⟩, ∅, false⟩, .define ⟨"Label", [], some ⟨0⟩, ∅, false⟩,
    .define ⟨"Timer", [], none, ∅, false⟩, .method ⟨1⟩ "paint" ⟨4⟩, .method ⟨4⟩ "paint" ⟨5⟩]

/-- The hierarchy that `widgets` leads to. -/
def assembled : Hierarchy := (((empty.applyAll widgets).run .off).result.toOption).getD .empty

/-- The label comes before the button, which is older, and the toggle last. The button has lost the
method that it had, and the timer, which is not visited, has kept its own. -/
theorem label_before_toggle :
    ((empty.applyAll widgets).run .off).result = .ok assembled ∧ assembled.Knows ⟨0⟩ ∧
      ∃ t' button, Takes (enterMethod "paint" ⟨6⟩) assembled [⟨0⟩] [⟨0⟩, ⟨3⟩, ⟨1⟩, ⟨2⟩] t' ∧
        t'.get ⟨1⟩ = .ok button ∧ button.method? "paint" = some ⟨6⟩ ∧
        t'.get ⟨4⟩ = assembled.get ⟨4⟩ := by
  have hrun : ((empty.applyAll widgets).run .off).result = .ok assembled := rfl
  have hwidget : assembled.Knows ⟨0⟩ := show 0 < 5 by decide
  obtain ⟨order, t', htakes, -, hmem, -, -, hcarried⟩ :=
    registration_visits_subtree_once hrun hwidget "paint" ⟨6⟩
  -- there is one order of visits, and following the loop visit by visit shows it
  have hwalk : Takes (enterMethod "paint" ⟨6⟩) assembled [⟨0⟩] [⟨0⟩, ⟨3⟩, ⟨1⟩, ⟨2⟩] _ :=
    .step rfl (.step rfl (.step rfl (.step rfl .done)))
  obtain ⟨horder, -⟩ := htakes.unique hwalk
  subst horder
  obtain ⟨methods, hbutton⟩ := hcarried.rest ⟨1⟩ _ rfl
  refine ⟨hrun, hwidget, t', _, htakes, hbutton, ?_, hcarried.unreached ⟨4⟩ ?_⟩
  · exact (hcarried.method?_iff ⟨1⟩ _ _ rfl hbutton).mpr (.inl ((hmem ⟨1⟩).mp (by decide)))
  · exact mt (hmem ⟨4⟩).mpr (by decide)

end StackFront.Hierarchy
