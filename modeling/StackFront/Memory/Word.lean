import StackFront.Fault

/-!
# Machine words

Sizes and addresses are 64-bit words. Sums of words are checked: a sum that does not fit is a fault
and never wraps around. Rounding goes up to a multiple of a power of two, by adding one less than
the unit and clearing the bits below it.

* `fit` is the word for a natural number, if there is one. A checked sum is the word for the sum of
  the numbers (`add_eq`).
-/

namespace StackFront.Word

/-- Whether exactly one bit is set: taking one off a word clears its lowest bit and sets those
below. -/
def isPowerOfTwo (w : UInt64) : Bool := w != 0 && w &&& (w - 1) == 0

/-- **Checked addition.** -/
def add (a b : UInt64) : Except Fault UInt64 :=
  if a.toNat + b.toNat < UInt64.size then .ok (a + b) else .error .addOverflow

/-- **Rounding up.** The size, rounded up to a multiple of `unit`, which must be a power of two. -/
def roundUp (size unit : UInt64) : Except Fault UInt64 :=
  if isPowerOfTwo unit then
    (add size (unit - 1)).map fun sum => sum &&& ~~~(unit - 1)
  else
    .error .roundingUnit

/-! ### Words and natural numbers -/

/-- **A natural number as a word.** A number past the last word has none, and the fault is that of a
sum. -/
def fit (n : Nat) : Except Fault UInt64 :=
  if n < UInt64.size then .ok (.ofNat n) else .error .addOverflow

variable {n : Nat}

/-- A number fits into exactly the word that stands for it. -/
theorem fit_eq_ok_iff {w : UInt64} : fit n = .ok w ↔ w.toNat = n := by
  unfold fit
  have hw := w.toNat_lt
  split
  · next hlt =>
    rw [Except.ok.injEq, ← UInt64.toNat_inj, UInt64.toNat_ofNat_of_lt' hlt, eq_comm]
  · next hlt =>
    refine iff_of_false (fun h => by cases h) ?_
    rintro rfl
    exact hlt hw

theorem fit_eq_error_iff {e : Fault} : fit n = .error e ↔ e = .addOverflow ∧ UInt64.size ≤ n := by
  unfold fit
  split
  · next hlt => exact iff_of_false (fun he => by cases he) fun ⟨_, hle⟩ => Nat.not_lt_of_le hle hlt
  · next hlt =>
    rw [Except.error.injEq, eq_comm (a := Fault.addOverflow)]
    exact (and_iff_left (Nat.le_of_not_lt hlt)).symm

/-- A checked sum is the sum of natural numbers, if that fits. -/
theorem add_eq (a b : UInt64) : add a b = fit (a.toNat + b.toNat) := by
  unfold add fit
  rw [UInt64.ofNat_add, UInt64.ofNat_toNat, UInt64.ofNat_toNat]

end StackFront.Word
