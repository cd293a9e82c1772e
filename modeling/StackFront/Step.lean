import StackFront.Fault
import StackFront.Log.Record

/-!
# Steps

Every operation of the front end is a `Step`: under a log filter it writes records, and it ends
either in a value or in a fault. The two ends are told apart by `Outcome.result`; the records that
were written before a fault stay written.

Records are the one place where the filter is looked at. A record's text may itself need a look-up
— the name of a procedure, say — and that look-up is made only if the record is wanted:
`Step.record` takes the text as an `Except Fault String` and meets its fault only under a filter
that admits the record.

* `result_bind` and `records_bind` describe sequencing through the two components of an outcome; the
  first says that `result` under a fixed filter is a homomorphism of monads, so that what an
  operation computes can be read off without its log.
* `result_note` and `records_note` do the same for a record whose text is already there.
-/

namespace StackFront

open Log (Level Area Record Filter)

variable {α β : Type}

/-- **What a step leaves behind**: the records it wrote, and its value or the fault that ended
it. -/
structure Outcome (α : Type) where
  records : List Record
  result : Except Fault α

/-- **A step of the front end.** -/
structure Step (α : Type) where
  run : Filter → Outcome α

namespace Step

/-- A value without any records. -/
protected def pure (a : α) : Step α := ⟨fun _ => ⟨[], .ok a⟩⟩

/-- One step, then the step its value asks for. A fault in the first leaves the second out. -/
protected def bind (x : Step α) (k : α → Step β) : Step β where
  run f :=
    match (x.run f).result with
    | .ok a => ⟨(x.run f).records ++ ((k a).run f).records, ((k a).run f).result⟩
    | .error e => ⟨(x.run f).records, .error e⟩

/-- Steps are sequenced by `bind`, so that records come in the order of the steps. -/
instance : Monad Step where
  pure := Step.pure
  bind := Step.bind

/-- A look-up as a step: it writes nothing. -/
def ofExcept (x : Except Fault α) : Step α := ⟨fun _ => ⟨[], x⟩⟩

/-- A look-up can stand wherever a step can. -/
instance : MonadLift (Except Fault) Step := ⟨ofExcept⟩

/-- **A record whose text may need a look-up.** Where the filter does not want the record, nothing
is looked up and nothing is written. -/
def record (level : Level) (area : Area) (text : Except Fault String) : Step Unit where
  run f :=
    if f.admits level then
      match text with
      | .ok message => ⟨[⟨level, area, message⟩], .ok ()⟩
      | .error e => ⟨[], .error e⟩
    else
      ⟨[], .ok ()⟩

/-- A record whose text is already there. It is written if the filter wants it, and cannot fail. -/
def note (level : Level) (area : Area) (message : String) : Step Unit :=
  record level area (.ok message)

/-! ### The two components of an outcome -/

variable (f : Filter)

@[simp] theorem result_pure (a : α) : ((pure a : Step α).run f).result = .ok a := rfl

@[simp] theorem records_pure (a : α) : ((pure a : Step α).run f).records = [] := rfl

/-- Under a fixed filter, results are sequenced as the steps are. -/
@[simp] theorem result_bind (x : Step α) (k : α → Step β) :
    ((x >>= k).run f).result = (x.run f).result >>= fun a => ((k a).run f).result := by
  change ((Step.bind x k).run f).result = _
  rcases h : (x.run f).result with e | a <;> simp only [Step.bind, h] <;> rfl

/-- The records of a sequence are those of its first step, followed by those of the second if the
first ends in a value. -/
theorem records_bind (x : Step α) (k : α → Step β) :
    ((x >>= k).run f).records = (x.run f).records ++
      (match (x.run f).result with
        | .ok a => ((k a).run f).records
        | .error _ => []) := by
  change ((Step.bind x k).run f).records = _
  rcases h : (x.run f).result with e | a <;> simp [Step.bind, h]

@[simp] theorem result_ofExcept (x : Except Fault α) : ((ofExcept x).run f).result = x := rfl

@[simp] theorem records_ofExcept (x : Except Fault α) : ((ofExcept x).run f).records = [] := rfl

@[simp] theorem result_monadLift (x : Except Fault α) :
    ((liftM x : Step α).run f).result = x := rfl

@[simp] theorem records_monadLift (x : Except Fault α) :
    ((liftM x : Step α).run f).records = [] := rfl

/-- A record fails only where its text is looked up, and the look-up fails. -/
theorem result_record (l : Level) (a : Area) (text : Except Fault String) :
    ((record l a text).run f).result =
      if f.admits l then text.map fun _ => () else .ok () := by
  unfold record
  by_cases h : f.admits l
  · rcases text with e | m <;> simp [h, Except.map]
  · simp [h]

@[simp] theorem result_note (l : Level) (a : Area) (m : String) :
    ((note l a m).run f).result = .ok () := by
  unfold note record
  by_cases h : f.admits l <;> simp [h]

@[simp] theorem records_note (l : Level) (a : Area) (m : String) :
    ((note l a m).run f).records = if f.admits l then [⟨l, a, m⟩] else [] := by
  unfold note record
  by_cases h : f.admits l <;> simp [h]

/-- Steps are equal when they have equal outcomes under every filter. -/
theorem ext_run {x y : Step α} (h : ∀ f, x.run f = y.run f) : x = y := by
  cases x
  cases y
  exact congrArg Step.mk (funext h)

theorem bind_pure_step (x : Step α) : Step.bind x Step.pure = x := by
  refine ext_run fun f => ?_
  simp only [Step.bind, Step.pure]
  rcases x.run f with ⟨r, _ | _⟩ <;> simp

theorem pure_step_bind (a : α) (k : α → Step β) : Step.bind (Step.pure a) k = k a :=
  ext_run fun f => by simp [Step.bind, Step.pure]

theorem bind_assoc_step {γ : Type} (x : Step α) (k : α → Step β) (l : β → Step γ) :
    Step.bind (Step.bind x k) l = Step.bind x fun a => Step.bind (k a) l := by
  refine ext_run fun f => ?_
  simp only [Step.bind]
  rcases x.run f with ⟨r, e | a⟩
  · rfl
  · simp only
    rcases (k a).run f with ⟨s, e | b⟩
    · rfl
    · simp [List.append_assoc]

/-- Sequencing is associative, in the records as in the values. -/
instance : LawfulMonad Step :=
  LawfulMonad.mk' Step bind_pure_step pure_step_bind bind_assoc_step

@[simp] theorem result_map (g : α → β) (x : Step α) :
    ((g <$> x).run f).result = g <$> (x.run f).result := by
  rw [map_eq_pure_bind, result_bind]
  rcases (x.run f).result with e | a <;> rfl

@[simp] theorem records_map (g : α → β) (x : Step α) :
    ((g <$> x).run f).records = (x.run f).records := by
  rw [map_eq_pure_bind, records_bind]
  rcases (x.run f).result with e | a <;> simp

end Step

end StackFront
