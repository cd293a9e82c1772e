import StackFront.Step

/-!
# Steps that the log does not interfere with

A step is *transparent* if the log shows what it does and has no part in it: it ends in the same way
under every filter, and a filter does no more than to pick the records that it admits from the log of
those who want everything.

Almost every way to make steps keeps them transparent. The one that does not is a record whose text
has to be looked up, because a look-up that is made only for the log can fail only for those who
read it. Such a record is transparent if its look-up succeeds (`Transparent.record`); and if it may
fail, then at least where the next step fails for the same reason (`Transparent.record_bind`).

* `Transparent` is stated for a step as a whole, its records and its end.
* `transparent_record_iff` says that the success of its look-up is all that a record depends on.
* `Transparent.bind` asks the second step to be transparent only after a value that the first one
  can yield.
-/

namespace StackFront

open Log (Level Area Record Filter)

variable {α β : Type}

/-- The records that a filter picks. -/
def Log.Filter.pick (f : Filter) (records : List Record) : List Record :=
  records.filter fun r => f.admits r.level

namespace Step

/-- **A step that the log does not interfere with.** -/
structure Transparent (x : Step α) : Prop where
  /-- Under any two filters it ends with the same value, or with the same fault. -/
  result_eq : ∀ f g, (x.run f).result = (x.run g).result
  /-- A filter picks its records from the whole log. -/
  records_eq : ∀ f, (x.run f).records = f.pick (x.run (.upTo .trace)).records

variable {x : Step α} {k : α → Step β} {level : Level} {area : Area} {text : Except Fault String}

/-- A step that looks at no filter and writes nothing. -/
theorem Transparent.silent {r : Except Fault α} (h : ∀ f, x.run f = ⟨[], r⟩) : x.Transparent where
  result_eq f g := by rw [h, h]
  records_eq f := by
    rw [h, h]
    rfl

namespace Transparent

theorem pure (a : α) : (Pure.pure a : Step α).Transparent := .silent fun _ => rfl

theorem lookUp (r : Except Fault α) : (liftM r : Step α).Transparent := .silent fun _ => rfl

theorem note (level : Level) (area : Area) (message : String) :
    (Step.note level area message).Transparent where
  result_eq f g := (result_note f level area message).trans (result_note g level area message).symm
  records_eq f := by
    rw [records_note, records_note, if_pos (Filter.trace_admits level), Log.Filter.pick,
      List.filter_cons, List.filter_nil]

/-- **A record whose text is found** is written to every log that wants it, and changes nothing. -/
theorem record (h : ∃ message, text = .ok message) : (Step.record level area text).Transparent := by
  obtain ⟨message, rfl⟩ := h
  exact note level area message

/-- **Two steps in a row.** What matters of the second is what it does after a value of the first. -/
theorem bind (hx : x.Transparent)
    (hk : ∀ a, (x.run (.upTo .trace)).result = .ok a → (k a).Transparent) :
    (x >>= k).Transparent where
  result_eq f g := by
    rw [result_bind, result_bind, hx.result_eq f (.upTo .trace), hx.result_eq g (.upTo .trace)]
    rcases h : (x.run (.upTo .trace)).result with e | a
    · rfl
    · exact (hk a h).result_eq f g
  records_eq f := by
    rw [records_bind, records_bind, hx.records_eq f, hx.result_eq f (.upTo .trace)]
    rcases h : (x.run (.upTo .trace)).result with e | a
    · -- the first step is the last one that writes
      simp only [List.append_nil]
    · simp only [(hk a h).records_eq f, Log.Filter.pick, List.filter_append]

theorem map (hx : x.Transparent) (g : α → β) : (g <$> x).Transparent := by
  rw [map_eq_pure_bind]
  exact hx.bind fun a _ => .pure (g a)

/-- **A record whose look-up may fail**, in front of a step that then fails in the same way: those who
do not want the record meet the fault a moment later. -/
theorem record_bind {k : Unit → Step β} (hk : (k ()).Transparent)
    (hfault : ∀ e, text = .error e → ∀ f, (k ()).run f = ⟨[], .error e⟩) :
    (Step.record level area text >>= k).Transparent := by
  rcases htext : text with e | message
  · -- there is nothing to write, and the fault is the same with the record as without it
    refine .silent (r := .error e) fun f => ?_
    change (Step.bind _ _).run f = _
    by_cases hf : f.admits level = true
    · simp [Step.bind, Step.record, hf]
    · simp [Step.bind, Step.record, hf, hfault e htext f]
  · exact (note level area message).bind fun _ _ => hk

end Transparent

/-- **A record is transparent exactly if its text is found.** A failing look-up is met by those who
want the record, and by no others. -/
theorem transparent_record_iff :
    (record level area text).Transparent ↔ ∃ message, text = .ok message := by
  constructor
  · intro h
    rcases htext : text with e | message
    · -- whoever wants everything meets the fault, and whoever wants nothing does not
      have hends := h.result_eq (.upTo .trace) .off
      rw [result_record, result_record, htext, if_pos (Filter.trace_admits level),
        if_neg (by simp)] at hends
      cases hends
    · exact ⟨message, rfl⟩
  · exact .record

end Step

end StackFront
