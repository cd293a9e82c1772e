/-!
# Faults

A compilation can end in two ways that are nobody's mistake but the compiler's own: a handle is
looked up that the table at hand never minted, or an address does not fit into a machine word. Such
an end is a `Fault`. It is not a diagnostic — nothing is reported and no state survives it — so it
is kept apart from the errors a user can cause, and every operation that can meet one says so in
its type, `Except Fault α`.

* `fetch` is the checked look-up behind every table of the library, and `fetch_eq_ok_iff` says that
  it answers with exactly the entries the table has.
-/

namespace StackFront

/-- **What can go wrong inside the compiler itself.** -/
inductive Fault where
  /-- An entry was asked for at `index` in a table of `size` entries. -/
  | outOfBounds (size index : Nat)
  /-- A sum of sizes does not fit into 64 bits. -/
  | addOverflow
  /-- A size was to be rounded up to something that is no power of two. -/
  | roundingUnit
  /-- An arena was to be made with an alignment that is no power of two. -/
  | arenaAlignment
deriving DecidableEq

/-- The words that a fault ends the process with. -/
def Fault.message : Fault → String
  | .outOfBounds size index => s!"index out of bounds: the len is {size} but the index is {index}"
  | .addOverflow => "attempt to add with overflow"
  | .roundingUnit => "assertion failed: align.is_power_of_two()"
  | .arenaAlignment => "memory alignment must be a power of two"

variable {α : Type}

/-- **Checked look-up.** The entry of `xs` at `i`; an index past the end is a fault that names the
size of the table. -/
def fetch (xs : Array α) (i : Nat) : Except Fault α :=
  match xs[i]? with
  | some x => .ok x
  | none => .error (.outOfBounds xs.size i)

/-- A look-up answers with exactly the entries of the table. -/
theorem fetch_eq_ok_iff {xs : Array α} {i : Nat} {x : α} :
    fetch xs i = .ok x ↔ xs[i]? = some x := by
  unfold fetch
  cases xs[i]? <;> simp

theorem fetch_of_lt {xs : Array α} {i : Nat} (h : i < xs.size) : fetch xs i = .ok xs[i] :=
  fetch_eq_ok_iff.mpr (Array.getElem?_eq_getElem h)

/-- Outside the table a look-up is the fault that names the size and the index. -/
theorem fetch_of_le {xs : Array α} {i : Nat} (h : xs.size ≤ i) :
    fetch xs i = .error (.outOfBounds xs.size i) := by
  simp [fetch, Array.getElem?_eq_none h]

/-! ### Sequencing look-ups -/

variable {β ε : Type}

@[simp] theorem ok_bind (a : α) (k : α → Except ε β) : (Except.ok a >>= k) = k a := rfl

@[simp] theorem error_bind (e : ε) (k : α → Except ε β) :
    (Except.error e >>= k) = Except.error e := rfl

@[simp] theorem map_ok (g : α → β) (a : α) : (g <$> (Except.ok a : Except ε α)) = .ok (g a) := rfl

@[simp] theorem map_error (g : α → β) (e : ε) :
    (g <$> (Except.error e : Except ε α)) = .error e := rfl

end StackFront
