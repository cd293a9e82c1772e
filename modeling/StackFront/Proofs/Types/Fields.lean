import Mathlib.Algebra.Ring.Nat
import StackFront.Proofs.Types.Subtyping

/-!
# Fields along the way up

A struct keeps all its fields in one list: those it was defined with, and behind them a copy of the list
of its parent, as it was at the moment of the definition. A name is looked up in this list from the
front, and nothing keeps a name from being there twice. Here the list is compared with the way up from
the struct, on which every struct stands with the fields of its own definition only.

* `ownFields` reads off a history what each struct was defined with, and `DefinedBy` says which
  definition of the history gave a handle out.
* `Inherits` is the invariant along a history: a struct has its own fields and those that its parent has
  now. A copy never goes stale, since no change writes the fields of a struct that is there.
* `NearestAt` is look-up along the way up: the nearest struct that declares the name, and there the first
  field of that name. `firstAt_flatMap_iff` says that this is what a search from the front finds in the
  fields of all structs on the way.
* `fields_follow_ancestors` is the result.
-/

namespace StackFront

/-! ### The first field of a name -/

/-- No field of the list has the name. -/
def Lacks (fields : List Field) (name : String) : Prop := ∀ field ∈ fields, field.name ≠ name

instance (fields : List Field) (name : String) : Decidable (Lacks fields name) :=
  inferInstanceAs (Decidable (∀ field ∈ fields, field.name ≠ name))

/-- **The first field of a name in a list**, with its position. -/
def FirstAt (fields : List Field) (name : String) (position : Nat) (field : Field) : Prop :=
  ∃ before after, fields = before ++ field :: after ∧ Lacks before name ∧ field.name = name ∧
    before.length = position

variable {fields fields' : List Field} {name : String} {position : Nat} {field : Field}

/-- The first field of a name in two lists is that in the first list, or, if there is none in it, that
in the second one. -/
theorem firstAt_append_iff :
    FirstAt (fields ++ fields') name position field ↔
      FirstAt fields name position field ∨
        Lacks fields name ∧ ∃ i, FirstAt fields' name i field ∧ fields.length + i = position := by
  constructor
  · rintro ⟨before, after, heq, hbefore, hname, rfl⟩
    -- the field stands in the second list, unless the first one reaches past it
    rcases List.append_eq_append_iff.mp heq with ⟨rest, rfl, hrest⟩ | ⟨rest, rfl, hrest⟩
    · have hlacks : Lacks fields name := fun g hg => hbefore g (List.mem_append_left rest hg)
      have hrestLacks : Lacks rest name := fun g hg => hbefore g (List.mem_append_right fields hg)
      exact .inr ⟨hlacks, rest.length, ⟨rest, after, hrest, hrestLacks, hname, rfl⟩,
        List.length_append.symm⟩
    · rcases rest with _ | ⟨g, rest⟩
      · rw [List.nil_append] at hrest
        rw [List.append_nil]
        exact .inr ⟨hbefore, 0, ⟨[], after, hrest.symm, by simp [Lacks], hname, rfl⟩, rfl⟩
      · obtain ⟨rfl, -⟩ := List.cons.inj hrest
        exact .inl ⟨before, rest, rfl, hbefore, hname, rfl⟩
  · rintro (⟨before, after, rfl, hbefore, hname, rfl⟩ |
      ⟨hlacks, _, ⟨before, after, rfl, hbefore, hname, rfl⟩, rfl⟩)
    · exact ⟨before, after ++ fields', by simp, hbefore, hname, rfl⟩
    · refine ⟨fields ++ before, after, by simp, fun g hg => ?_, hname, List.length_append⟩
      exact (List.mem_append.mp hg).elim (hlacks g) (hbefore g)

namespace Struct

variable {s : Struct}

/-- **Look-up by name** finds nothing exactly if no field has the name. -/
theorem fieldPosition?_eq_none_iff : s.fieldPosition? name = none ↔ Lacks s.fields name := by
  simp [fieldPosition?, Lacks]

/-- The position it finds is that of the first field of the name. -/
theorem fieldPosition?_eq_some_iff :
    s.fieldPosition? name = some position ↔ ∃ field, FirstAt s.fields name position field := by
  constructor
  · intro h
    obtain ⟨hlt, hname, hbefore⟩ := List.findIdx?_eq_some_iff_getElem.mp h
    have hsplit : s.fields = s.fields.take position ++
        s.fields[position] :: s.fields.drop (position + 1) := by
      rw [← List.drop_eq_getElem_cons hlt, List.take_append_drop]
    refine ⟨s.fields[position], _, _, hsplit, fun g hg => ?_, by simpa using hname, ?_⟩
    · obtain ⟨i, hi, rfl⟩ := List.mem_take_iff_getElem.mp hg
      simpa using hbefore i (by omega)
    · exact List.length_take_of_le (Nat.le_of_lt hlt)
  · rintro ⟨field, before, after, heq, hbefore, hname, rfl⟩
    have hnone : before.findIdx? (fun f => f.name == name) = none := by simpa [Lacks] using hbefore
    rw [fieldPosition?, heq, List.findIdx?_append, hnone]
    simp [List.findIdx?_cons, hname]

/-- The type it finds is that of the same field. -/
theorem typeOfField?_eq_some_iff {type : ValueType} :
    s.typeOfField? name = some type ↔
      ∃ position field, FirstAt s.fields name position field ∧ field.type = type := by
  simp only [typeOfField?, Option.map_eq_some_iff, List.find?_eq_some_iff_append, FirstAt, Lacks]
  constructor
  · rintro ⟨field, ⟨hname, before, after, heq, hbefore⟩, rfl⟩
    exact ⟨_, field, ⟨before, after, heq, by simpa using hbefore, by simpa using hname, rfl⟩, rfl⟩
  · rintro ⟨_, field, ⟨before, after, heq, hbefore, hname, -⟩, rfl⟩
    exact ⟨field, ⟨by simpa using hname, before, after, heq, by simpa using hbefore⟩, rfl⟩

end Struct

namespace Hierarchy

variable {t t' : Hierarchy} {f : Log.Filter} {a b : StructId} {above chain : List StructId}
  {changes : List Change} {c : Change} {own : StructId → List Field}

/-! ### The nearest declaration -/

/-- **The nearest declaration of a name** along a chain of structs, of which each has fields of its own:
the first field of the name in the first struct that declares it. Its position is counted over the own
fields of all structs that stand before. -/
def NearestAt (own : StructId → List Field) (chain : List StructId) (name : String) (position : Nat)
    (field : Field) : Prop :=
  ∃ before c after i, chain = before ++ c :: after ∧ (∀ x ∈ before, Lacks (own x) name) ∧
    FirstAt (own c) name i field ∧ (before.map fun x => (own x).length).sum + i = position

/-- The nearest declaration is in the struct that the chain begins with, or, if there is none in it,
it is the nearest one behind it. -/
theorem nearestAt_cons_iff :
    NearestAt own (a :: chain) name position field ↔
      FirstAt (own a) name position field ∨
        Lacks (own a) name ∧ ∃ i, NearestAt own chain name i field ∧ (own a).length + i = position := by
  constructor
  · rintro ⟨before, c, after, i, heq, hbefore, hfirst, rfl⟩
    rcases before with _ | ⟨x, before⟩
    · obtain ⟨rfl, rfl⟩ := List.cons.inj heq
      exact .inl (by simpa using hfirst)
    · obtain ⟨rfl, rfl⟩ := List.cons.inj heq
      refine .inr ⟨hbefore a List.mem_cons_self, _, ⟨before, c, after, i, rfl, ?_, hfirst, rfl⟩, ?_⟩
      · exact fun y hy => hbefore y (List.mem_cons_of_mem a hy)
      · rw [List.map_cons, List.sum_cons, Nat.add_assoc]
  · rintro (hfirst | ⟨hlacks, _, ⟨before, c, after, i, rfl, hbefore, hfirst, rfl⟩, rfl⟩)
    · exact ⟨[], a, chain, position, rfl, by simp, hfirst, by simp⟩
    · refine ⟨a :: before, c, after, i, rfl, ?_, hfirst, ?_⟩
      · exact List.forall_mem_cons.mpr ⟨hlacks, hbefore⟩
      · rw [List.map_cons, List.sum_cons, Nat.add_assoc]

/-- **A search from the front finds the nearest declaration** in the own fields of a chain, one struct
after the other. -/
theorem firstAt_flatMap_iff :
    FirstAt (chain.flatMap own) name position field ↔ NearestAt own chain name position field := by
  induction chain generalizing position with
  | nil => simp [FirstAt, NearestAt]
  | cons a chain ih =>
    rw [List.flatMap_cons, firstAt_append_iff, nearestAt_cons_iff]
    simp only [ih]

theorem lacks_flatMap_iff : Lacks (chain.flatMap own) name ↔ ∀ c ∈ chain, Lacks (own c) name := by
  simp only [Lacks, List.mem_flatMap]
  constructor
  · exact fun h c hc g hg => h g ⟨c, hc, hg⟩
  · rintro h g ⟨c, hc, hg⟩
    exact h c hc g hg

/-! ### The definitions of a history -/

/-- The definition that a change consists in. -/
def Change.definition? : Change → Option StructDef
  | .define d => some d
  | _ => none

/-- The definitions of a history, in their order, in which handles are given out. -/
def definitions (changes : List Change) : List StructDef := changes.filterMap Change.definition?

/-- **The fields that a struct was defined with**, without those it took over from its parent. -/
def ownFields (changes : List Change) (a : StructId) : List Field :=
  ((definitions changes)[a.index]?.map (·.fields)).getD []

/-- **The definition that gave a handle out**, in a history that begins without structs. -/
def DefinedBy (f : Log.Filter) (changes : List Change) (a : StructId) (d : StructDef) : Prop :=
  ∃ before later t₁ t₂, changes = before ++ .define d :: later ∧
    ((empty.applyAll before).run f).result = .ok t₁ ∧ ((t₁.define d).run f).result = .ok (a, t₂)

theorem definitions_append (changes : List Change) (c : Change) :
    definitions (changes ++ [c]) = definitions changes ++ c.definition?.toList := by
  unfold definitions
  rw [List.filterMap_append]
  cases c <;> rfl

/-- A later change leaves the own fields of a struct alone. -/
theorem ownFields_append (h : a.index < (definitions changes).length) (c : Change) :
    ownFields (changes ++ [c]) a = ownFields changes a := by
  unfold ownFields
  rw [definitions_append, List.getElem?_append_left h]

theorem ownFields_new {d : StructDef} (h : a.index = (definitions changes).length) :
    ownFields (changes ++ [.define d]) a = d.fields := by
  unfold ownFields
  rw [definitions_append, h]
  simp [Change.definition?]

theorem DefinedBy.append {d : StructDef} (h : DefinedBy f changes a d) (c : Change) :
    DefinedBy f (changes ++ [c]) a d := by
  obtain ⟨before, later, t₁, t₂, rfl, h₁, h₂⟩ := h
  exact ⟨before, later ++ [c], t₁, t₂, by simp, h₁, h₂⟩

/-! ### The invariant -/

/-- All fields of a struct, as the hierarchy has them. -/
def fieldsOf (t : Hierarchy) (a : StructId) : List Field :=
  ((t.head? a).map (·.2.fields)).getD []

theorem fieldsOf_of_struct? {s : Struct} (h : t.struct? a = some s) : t.fieldsOf a = s.fields := by
  rw [fieldsOf, head?, h]
  rfl

/-- What a struct takes over: the fields of its parent, if it has one. -/
def fieldsAbove (t : Hierarchy) : Option StructId → List Field
  | none => []
  | some p => t.fieldsOf p

/-- **The fields of a hierarchy follow its history**: a struct has the fields it was defined with, and
behind them those that its parent has. -/
structure Inherits (f : Log.Filter) (changes : List Change) (t : Hierarchy) : Prop where
  applied : ((empty.applyAll changes).run f).result = .ok t
  /-- Handles are given out in the order of the definitions. -/
  size_eq : t.size = (definitions changes).length
  defined : ∀ a, t.Knows a → ∃ d, DefinedBy f changes a d ∧ ownFields changes a = d.fields
  fields_eq : ∀ a, t.Knows a → t.fieldsOf a = ownFields changes a ++ t.fieldsAbove (t.parent? a)

theorem Inherits.sound (h : Inherits f changes t) : t.Sound := sound_of_applyAll h.applied

/-- A change that keeps all heads keeps the invariant, whatever it does to methods. -/
theorem Inherits.of_head?_eq (h : Inherits f changes t)
    (happlied : ((empty.applyAll (changes ++ [c])).run f).result = .ok t')
    (hc : c.definition? = none) (hlinks : SameLinks t t') (hhead : ∀ a, t'.head? a = t.head? a) :
    Inherits f (changes ++ [c]) t' := by
  have hdefs : definitions (changes ++ [c]) = definitions changes := by
    rw [definitions_append, hc]
    exact List.append_nil _
  have hown : ownFields (changes ++ [c]) = ownFields changes := by
    funext a
    rw [ownFields, ownFields, hdefs]
  have hfields : t'.fieldsOf = t.fieldsOf := by
    funext a
    rw [fieldsOf, fieldsOf, hhead]
  refine ⟨happlied, ?_, fun a ha => ?_, fun a ha => ?_⟩
  · rw [hlinks.size_eq, hdefs]
    exact h.size_eq
  · obtain ⟨d, hd, hd'⟩ := h.defined a (hlinks.knows_iff.mp ha)
    exact ⟨d, hd.append c, by rw [hown, hd']⟩
  · have hold := h.fields_eq a (hlinks.knows_iff.mp ha)
    rw [hfields, hown, hlinks.parent?_eq, hold]
    congr 1
    unfold fieldsAbove
    rw [hfields]

/-- A definition keeps the invariant: the new struct takes over what its parent has, and the parent will
not be given other fields. -/
theorem Inherits.define (h : Inherits f changes t) {d : StructDef}
    (happlied : ((empty.applyAll (changes ++ [.define d])).run f).result = .ok t') {id : StructId}
    (hr : ((t.define d).run f).result = .ok (id, t')) :
    Inherits f (changes ++ [.define d]) t' := by
  obtain ⟨i, hi, rfl, rfl⟩ := define_eq_ok_iff.mp hr
  have hid : (t.build d i).id = ⟨t.size⟩ := rfl
  have hp := knows_parent_of_inherited hi
  have hlt : ∀ a, t.Knows a → a.index < (definitions changes).length := by
    intro a ha
    rw [← h.size_eq]
    exact ha
  -- the fields of an old struct are those it had
  have hold : ∀ a, t.Knows a → (t.attach (t.build d i)).fieldsOf a = t.fieldsOf a := by
    intro a ha
    have hne : a ≠ ⟨t.size⟩ := by
      rintro rfl
      exact Nat.lt_irrefl _ ha
    rw [fieldsOf, head?_attach_build hi, if_neg hne, fieldsOf]
  have habove : ∀ p : Option StructId, (∀ a, p = some a → t.Knows a) →
      (t.attach (t.build d i)).fieldsAbove p = t.fieldsAbove p := by
    rintro (_ | a) ha
    · rfl
    · exact hold a (ha a rfl)
  refine ⟨happlied, ?_, fun a ha => ?_, fun a ha => ?_⟩
  · rw [size_attach, definitions_append, List.length_append, h.size_eq]
    rfl
  · rcases (knows_attach_iff hid).mp ha with rfl | ha
    · exact ⟨d, ⟨changes, [], t, _, rfl, h.applied, hr⟩, ownFields_new h.size_eq⟩
    · obtain ⟨d', hd', hown⟩ := h.defined a ha
      exact ⟨d', hd'.append _, by rw [ownFields_append (hlt a ha), hown]⟩
  · rw [parent?_attach hid hp]
    rcases (knows_attach_iff hid).mp ha with rfl | ha
    · -- the new struct has its own fields, and a copy of what its parent has
      have hcopy : i.1 = t.fieldsAbove d.parent := by
        rcases hd : d.parent with _ | p
        · rw [hd] at hi
          obtain rfl := Except.ok.inj hi
          rfl
        · rw [hd] at hi
          obtain ⟨s, hs, rfl⟩ := knows_of_inherited hi
          exact (fieldsOf_of_struct? hs).symm
      have hnew : (t.attach (t.build d i)).fieldsOf (t.build d i).id = d.fields ++ i.1 := by
        rw [fieldsOf, head?_attach_build hi, if_pos hid]
        rfl
      have hown : ownFields (changes ++ [.define d]) (t.build d i).id = d.fields :=
        ownFields_new h.size_eq
      rw [if_pos rfl, hnew, hown, hcopy, habove _ hp]
      rfl
    · have hne : a ≠ (t.build d i).id := by
        rintro rfl
        exact not_knows_new hid ha
      rw [if_neg hne, hold a ha, ownFields_append (hlt a ha), h.fields_eq a ha,
        habove _ fun p hpa => h.sound.knows_parent hpa]

/-- **Every history keeps the invariant.** -/
theorem inherits_of_applyAll (h : ((empty.applyAll changes).run f).result = .ok t) :
    Inherits f changes t := by
  induction changes using List.reverseRecOn generalizing t with
  | nil =>
    obtain rfl : empty = t := Except.ok.inj h
    exact ⟨h, rfl, fun a ha => absurd ha (Nat.not_lt_zero a.index),
      fun a ha => absurd ha (Nat.not_lt_zero a.index)⟩
  | append_singleton changes c ih =>
    obtain ⟨t₁, h₁, hc⟩ := exists_of_applyAll_append h
    have hinherits := ih h₁
    cases c with
    | define d =>
      obtain ⟨id, hr⟩ := apply_define_eq_ok_iff.mp hc
      exact hinherits.define h hr
    | method owner name proc =>
      exact hinherits.of_head?_eq h rfl (.registerMethod hinherits.sound hc)
        (head?_registerMethod hinherits.sound hc)
    | static owner name proc =>
      obtain ⟨-, rfl⟩ := registerStatic_eq_ok_iff.mp hc
      exact hinherits.of_head?_eq h rfl (.update t₁ owner fun _ => rfl) head?_withStatic

/-! ### The result -/

/-- The fields of a struct are the own fields of all structs on the way up from it. -/
theorem Inherits.fieldsOf_eq (h : Inherits f changes t) (hl : t.Lineage a above) (ha : t.Knows a) :
    t.fieldsOf a = (a :: above).flatMap (ownFields changes) := by
  -- by induction on the way up: what a struct takes over is what its parent has now
  induction hl with
  | @root a orphan =>
    rw [h.fields_eq a ha, orphan]
    rfl
  | @step a p above parent _ ih =>
    rw [List.flatMap_cons, ← ih (h.sound.knows_parent parent), h.fields_eq a ha, parent]
    rfl

/-- What a struct has, every struct below it has at the end of its fields. -/
theorem Inherits.isSuffix (h : Inherits f changes t) (hab : t.Extends a b) (ha : t.Knows a) :
    t.fieldsOf b <:+ t.fieldsOf a := by
  induction hab with
  | refl => exact List.suffix_refl _
  | @tail b c hab parent ih =>
    have hb : t.Knows b := Extends.knows h.sound hab ha
    have hstep : t.fieldsOf c <:+ t.fieldsOf b := by
      rw [h.fields_eq b hb, parent]
      exact List.suffix_append _ _
    exact hstep.trans ih

/-- **Fields follow the way up.** Whatever has been defined and registered since the hierarchy was empty,
a struct has the own fields of all structs on the way up from it, one struct after the other, each with
the fields that it was defined with. So a supertype's fields stand at the end of those of its subtypes,
and a name is looked up where it is declared nearest on the way up. -/
theorem fields_follow_ancestors (h : ((empty.applyAll changes).run f).result = .ok t)
    (ha : t.Knows a) :
    ∃ s above, t.get a = .ok s ∧ t.ancestors a = .ok above ∧
      (∀ c ∈ a :: above, ∃ d, DefinedBy f changes c d ∧ ownFields changes c = d.fields) ∧
      s.fields = (a :: above).flatMap (ownFields changes) ∧
      (∀ b, t.isSubtype a b = .ok true → ∃ s', t.get b = .ok s' ∧ s'.fields <:+ s.fields) ∧
      ∀ name,
        (s.fieldPosition? name = none ↔ ∀ c ∈ a :: above, Lacks (ownFields changes c) name) ∧
        (∀ position, s.fieldPosition? name = some position ↔
          ∃ field, NearestAt (ownFields changes) (a :: above) name position field) ∧
        ∀ type, s.typeOfField? name = some type ↔
          ∃ position field, NearestAt (ownFields changes) (a :: above) name position field ∧
            field.type = type := by
  have hi := inherits_of_applyAll h
  obtain ⟨s, hs⟩ := knows_iff.mp ha
  obtain ⟨above, habove, hl, -⟩ := hi.sound.isForest.ancestors a ha
  have hfields : s.fields = (a :: above).flatMap (ownFields changes) :=
    (fieldsOf_of_struct? hs).symm.trans (hi.fieldsOf_eq hl ha)
  refine ⟨s, above, get_eq_ok_iff_struct?.mpr hs, habove, fun c hc => ?_, hfields, fun b hb => ?_,
    fun name => ⟨?_, fun position => ?_, fun type => ?_⟩⟩
  · -- whatever stands on the way up is known, and the history has its definition
    exact hi.defined c (hl.knows hi.sound ha c hc)
  · have hab : t.Extends a b := (isSubtype_eq_ok_iff hi.sound ha).mp hb
    obtain ⟨s', hs'⟩ := knows_iff.mp (hab.knows hi.sound ha)
    refine ⟨s', get_eq_ok_iff_struct?.mpr hs', ?_⟩
    rw [← fieldsOf_of_struct? hs, ← fieldsOf_of_struct? hs']
    exact hi.isSuffix hab ha
  · rw [Struct.fieldPosition?_eq_none_iff, hfields, lacks_flatMap_iff]
  · simp only [Struct.fieldPosition?_eq_some_iff, hfields, firstAt_flatMap_iff]
  · simp only [Struct.typeOfField?_eq_some_iff, hfields, firstAt_flatMap_iff]

/-- A square declares a side twice and a corner that shapes have as well; a method is registered on
shapes when it has been defined, and another shape is defined behind it. -/
def shapes : List Change :=
  [.define ⟨"Shape", [⟨"corner", .int⟩, ⟨"color", .bool⟩], none, ∅, false⟩,
    .define ⟨"Square", [⟨"side", .int⟩, ⟨"corner", .ptr⟩, ⟨"side", .any⟩], some ⟨0⟩, ∅, false⟩,
    .method ⟨0⟩ "draw" ⟨0⟩, .define ⟨"Circle", [⟨"radius", .int⟩], some ⟨0⟩, ∅, false⟩]

/-- The corner of a square is its own, and its color is that of a shape, behind all fields of its own. -/
theorem square_keeps_its_corner :
    ∃ t square, ((empty.applyAll shapes).run .off).result = .ok t ∧ t.Knows ⟨1⟩ ∧
      t.get ⟨1⟩ = .ok square ∧ square.fieldPosition? "corner" = some 1 ∧
      square.typeOfField? "corner" = some .ptr ∧ square.fieldPosition? "color" = some 4 ∧
      square.fieldPosition? "radius" = none := by
  obtain ⟨t, ht⟩ : ∃ t, ((empty.applyAll shapes).run .off).result = .ok t := ⟨_, rfl⟩
  have hk : t.Knows ⟨1⟩ := by
    cases ht
    exact (show 1 < 3 by decide)
  obtain ⟨square, above, hs, habove, -, -, -, hnames⟩ := fields_follow_ancestors ht hk
  have hup : above = [⟨0⟩] := by
    cases ht
    exact Except.ok.inj habove.symm
  subst hup
  -- the corner is the second of the three fields that the square itself was defined with
  have hcorner : NearestAt (ownFields shapes) [⟨1⟩, ⟨0⟩] "corner" 1 ⟨"corner", .ptr⟩ :=
    ⟨[], ⟨1⟩, [⟨0⟩], 1, rfl, by simp, ⟨[⟨"side", .int⟩], [⟨"side", .any⟩], rfl, by decide, rfl, rfl⟩,
      rfl⟩
  have hcolor : NearestAt (ownFields shapes) [⟨1⟩, ⟨0⟩] "color" 4 ⟨"color", .bool⟩ :=
    ⟨[⟨1⟩], ⟨0⟩, [], 1, rfl, by decide, ⟨[⟨"corner", .int⟩], [], rfl, by decide, rfl, rfl⟩, rfl⟩
  exact ⟨t, square, ht, hk, hs, ((hnames _).2.1 1).mpr ⟨_, hcorner⟩,
    ((hnames _).2.2 .ptr).mpr ⟨_, _, hcorner, rfl⟩, ((hnames _).2.1 4).mpr ⟨_, hcolor⟩,
    (hnames _).1.mpr (by decide)⟩

end Hierarchy

end StackFront
