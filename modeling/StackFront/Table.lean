/-!
# Tables

A `Table κ α` maps finitely many keys of type `κ` to values of type `α`. It keeps its entries in a
list, no key twice, the youngest first; nothing that the front end answers depends on that order.

The view of a table is `get?`. Each operation has one equation about it — `get?_empty`,
`get?_insert`, `get?_erase` — and `contains_iff` relates membership to it, so that the entry list
need not be looked at again.
-/

namespace StackFront

/-- **A finite map.** The keys of its entries are distinct. -/
structure Table (κ α : Type) where
  entries : List (κ × α)
  keys_nodup : (entries.map Prod.fst).Nodup

namespace Table

variable {κ α : Type}

/-- No key has a value. -/
def empty : Table κ α := ⟨[], List.nodup_nil⟩

/-- The empty table is written like the empty set. -/
instance : EmptyCollection (Table κ α) := ⟨empty⟩

/-- How many keys have a value. -/
def size (t : Table κ α) : Nat := t.entries.length

private theorem nodup_keys_filter {es : List (κ × α)} (h : (es.map Prod.fst).Nodup)
    (p : κ × α → Bool) : ((es.filter p).map Prod.fst).Nodup :=
  h.sublist (List.filter_sublist.map Prod.fst)

variable [DecidableEq κ]

/-- The value at a key, if the key is in the table. -/
def get? (t : Table κ α) (k : κ) : Option α :=
  (t.entries.find? fun e => e.1 = k).map Prod.snd

/-- Whether a key has a value. -/
def contains (t : Table κ α) (k : κ) : Bool := (t.get? k).isSome

/-- Takes a key out of the table, with its value. -/
def erase (t : Table κ α) (k : κ) : Table κ α where
  entries := t.entries.filter fun e => e.1 ≠ k
  keys_nodup := nodup_keys_filter t.keys_nodup _

/-- Puts a value at a key, in place of any value that was there. -/
def insert (t : Table κ α) (k : κ) (v : α) : Table κ α where
  entries := (k, v) :: (t.erase k).entries
  keys_nodup := by
    rw [List.map_cons, List.nodup_cons]
    refine ⟨?_, (t.erase k).keys_nodup⟩
    simp [erase]

/-- The table of a list of entries, put in one after the other. -/
def ofList (es : List (κ × α)) : Table κ α :=
  es.foldl (fun t e => t.insert e.1 e.2) ∅

/-! ### The view -/

@[simp] theorem get?_empty (k : κ) : (∅ : Table κ α).get? k = none := rfl

/-- **Erasing hides one key** and no other. -/
theorem get?_erase (t : Table κ α) (k k' : κ) :
    (t.erase k).get? k' = if k = k' then none else t.get? k' := by
  unfold get? erase
  rw [List.find?_filter]
  by_cases h : k = k'
  · rw [if_pos h, Option.map_eq_none_iff, List.find?_eq_none]
    intro e _
    simp [h]
  · rw [if_neg h]
    congr 2
    funext e
    by_cases he : e.1 = k' <;> simp [he, Ne.symm h]

/-- **Inserting shows the new value** at its key and changes no other. -/
theorem get?_insert (t : Table κ α) (k : κ) (v : α) (k' : κ) :
    (t.insert k v).get? k' = if k = k' then some v else t.get? k' := by
  by_cases h : k = k'
  · simp [get?, insert, h]
  · have := get?_erase t k k'
    rw [if_neg h] at this
    rw [if_neg h, ← this]
    simp [get?, insert, h]

@[simp] theorem get?_insert_self (t : Table κ α) (k : κ) (v : α) :
    (t.insert k v).get? k = some v := by
  rw [get?_insert, if_pos rfl]

theorem get?_insert_of_ne (t : Table κ α) {k k' : κ} (h : k ≠ k') (v : α) :
    (t.insert k v).get? k' = t.get? k' := by
  rw [get?_insert, if_neg h]

/-- A key is in the table when the table has a value for it. -/
theorem contains_iff {t : Table κ α} {k : κ} : t.contains k = true ↔ ∃ v, t.get? k = some v :=
  Option.isSome_iff_exists

theorem get?_eq_none_iff {t : Table κ α} {k : κ} : t.get? k = none ↔ t.contains k = false := by
  unfold contains
  rw [Option.isSome_eq_false_iff, Option.isNone_iff_eq_none]

@[simp] theorem contains_empty (k : κ) : (∅ : Table κ α).contains k = false := rfl

/-- After an insertion the table has its old keys and the new one. -/
theorem contains_insert (t : Table κ α) (k : κ) (v : α) (k' : κ) :
    (t.insert k v).contains k' = (decide (k = k') || t.contains k') := by
  unfold contains
  rw [get?_insert]
  by_cases h : k = k' <;> simp [h]

end Table

end StackFront
