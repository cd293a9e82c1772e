import Mathlib.Algebra.Group.Nat.Defs
import Mathlib.Order.Bounds.Defs
import StackFront.Memory.Arena

/-!
# How far an allocation reaches

Rounding a size up works on machine words: one less than the unit is added, and the bits below the
unit are cleared. Two additions are checked on the way to the new end of an arena, the one that
rounds and the one that extends. Here all of it is compared with the natural number that is meant,
the size taken up to a multiple of the unit.

The first addition is carried out on a number that need not be a multiple of anything. It still
fails only if the rounded size itself is too large for a word, since the number of words is a
multiple of the unit.

* `ceil` is the natural number, the least multiple of the unit that is not smaller (`ceil_isLeast`).
* `roundUp_eq` and `Arena.advance_eq` say what the two operations yield. `roundUp_eq_ok_iff` and
  `advance_eq_ok_iff` read the result off it, `roundUp_eq_error_iff` and `advance_eq_error_iff` when
  there is none.
-/

namespace StackFront

namespace Word

/-- **A size, taken up to a multiple of a unit.** -/
def ceil (unit n : Nat) : Nat := (n + (unit - 1)) / unit * unit

/-- It is the least multiple of the unit that is not smaller than the size. -/
theorem ceil_isLeast {unit : Nat} (hu : 0 < unit) (n : Nat) :
    IsLeast {m | unit ∣ m ∧ n ≤ m} (ceil unit n) := by
  constructor
  · have hdivision := Nat.div_add_mod' (n + (unit - 1)) unit
    have hmod := Nat.mod_lt (n + (unit - 1)) hu
    refine ⟨Nat.dvd_mul_left unit _, ?_⟩
    unfold ceil
    omega
  · -- a multiple that is not smaller than the size has as many units
    rintro m ⟨⟨k, rfl⟩, hm⟩
    have hk : (n + (unit - 1)) / unit ≤ k := by
      rw [Nat.div_le_iff_le_mul_add_pred hu]
      omega
    rw [Nat.mul_comm unit k]
    exact Nat.mul_le_mul_right unit hk

/-- Below a multiple of the unit it makes no difference whether a size is taken up to a multiple, or
just far enough to reach the next one. -/
theorem ceil_lt_iff {unit n m : Nat} (hu : 0 < unit) (hm : unit ∣ m) :
    ceil unit n < m ↔ n + (unit - 1) < m := by
  obtain ⟨k, rfl⟩ := hm
  rw [ceil, Nat.mul_comm unit k, Nat.mul_lt_mul_right hu, Nat.div_lt_iff_lt_mul hu]

/-- Nothing but nothing is taken up to nothing. -/
theorem ceil_pos_iff {unit n : Nat} (hu : 0 < unit) : 0 < ceil unit n ↔ 0 < n := by
  obtain ⟨⟨-, hle⟩, hleast⟩ := ceil_isLeast hu n
  refine ⟨fun h => Nat.pos_of_ne_zero fun hn => ?_, fun h => Nat.lt_of_lt_of_le h hle⟩
  have hzero : ceil unit n ≤ 0 := hleast ⟨Nat.dvd_zero unit, Nat.le_of_eq hn⟩
  exact absurd h (Nat.not_lt_of_le hzero)

/-! ### Machine words -/

variable {unit : UInt64}

/-- The units are the powers of two. -/
theorem isPowerOfTwo_iff : isPowerOfTwo unit = true ↔ ∃ k, unit.toNat = 2 ^ k := by
  by_cases hzero : unit = 0
  · -- zero is a word without a predecessor
    subst hzero
    exact iff_of_false (by decide) fun ⟨k, hk⟩ => Nat.ne_of_lt (Nat.two_pow_pos k) hk
  have hpos : unit.toNat ≠ 0 := fun h => hzero (UInt64.toNat_inj.mp h)
  have hpred : (unit - 1).toNat = unit.toNat - 1 :=
    UInt64.toNat_sub_of_le unit 1 (Nat.one_le_iff_ne_zero.mpr hpos)
  have hbits : unit &&& (unit - 1) = 0 ↔ unit.toNat &&& (unit.toNat - 1) = 0 := by
    rw [← hpred, ← UInt64.toNat_and, ← UInt64.toNat_inj]
    rfl
  unfold isPowerOfTwo
  simp only [Bool.and_eq_true, bne_iff_ne, beq_iff_eq]
  rw [hbits, and_iff_right hzero]
  exact Nat.and_sub_one_eq_zero_iff_isPowerOfTwo hpos

theorem exists_of_isPowerOfTwo (h : isPowerOfTwo unit = true) : ∃ k, unit.toNat = 2 ^ k :=
  isPowerOfTwo_iff.mp h

/-- Every unit divides the number of words. -/
theorem dvd_size (h : isPowerOfTwo unit = true) : unit.toNat ∣ UInt64.size := by
  obtain ⟨k, hk⟩ := exists_of_isPowerOfTwo h
  have hlt : 2 ^ k < 2 ^ 64 := hk ▸ unit.toNat_lt
  rw [hk]
  exact Nat.pow_dvd_pow 2 (Nat.le_of_lt ((Nat.pow_lt_pow_iff_right (by decide)).mp hlt))

theorem pos_of_isPowerOfTwo (h : isPowerOfTwo unit = true) : 0 < unit.toNat := by
  obtain ⟨k, hk⟩ := exists_of_isPowerOfTwo h
  rw [hk]
  exact Nat.two_pow_pos k

theorem toNat_pred (h : isPowerOfTwo unit = true) : (unit - 1).toNat = unit.toNat - 1 :=
  UInt64.toNat_sub_of_le unit 1 (pos_of_isPowerOfTwo h)

/-- A mask splits a word in two. -/
theorem toNat_and_add_toNat_and_not (w mask : UInt64) :
    (w &&& mask).toNat + (w &&& ~~~mask).toNat = w.toNat := by
  -- the halves have no bit in common, so that their sum has no carries
  have hdisjoint : (w &&& mask).toBitVec &&& (w &&& ~~~mask).toBitVec = 0#64 := by
    ext i hi
    simp only [UInt64.toBitVec_and, UInt64.toBitVec_not, BitVec.getElem_and, BitVec.getElem_not]
    cases w.toBitVec[i] <;> cases mask.toBitVec[i] <;> simp
  have hjoin : (w &&& mask).toBitVec ||| (w &&& ~~~mask).toBitVec = w.toBitVec := by
    ext i hi
    simp only [UInt64.toBitVec_and, UInt64.toBitVec_not, BitVec.getElem_or, BitVec.getElem_and,
      BitVec.getElem_not]
    cases w.toBitVec[i] <;> cases mask.toBitVec[i] <;> rfl
  have hsum := BitVec.toNat_add_of_and_eq_zero hdisjoint
  rw [BitVec.add_eq_or_of_and_eq_zero _ _ hdisjoint, hjoin] at hsum
  exact hsum.symm

/-- Clearing the bits below a unit leaves the multiples of the unit. -/
theorem toNat_and_not_pred (h : isPowerOfTwo unit = true) (w : UInt64) :
    (w &&& ~~~(unit - 1)).toNat = w.toNat / unit.toNat * unit.toNat := by
  have hlow : (w &&& (unit - 1)).toNat = w.toNat % unit.toNat := by
    rw [UInt64.toNat_and, toNat_pred h]
    obtain ⟨k, hk⟩ := exists_of_isPowerOfTwo h
    rw [hk, Nat.and_two_pow_sub_one_eq_mod]
  have hsplit := toNat_and_add_toNat_and_not w (unit - 1)
  have hdivision := Nat.div_add_mod' w.toNat unit.toNat
  omega

/-- **Rounding up** yields the least multiple that is not smaller, if that fits into a word. -/
theorem roundUp_eq (h : isPowerOfTwo unit = true) (size : UInt64) :
    roundUp size unit = fit (ceil unit.toNat size.toNat) := by
  have hpast : UInt64.size ≤ size.toNat + (unit.toNat - 1) ↔
      UInt64.size ≤ ceil unit.toNat size.toNat := by
    rw [← Nat.not_lt, ← Nat.not_lt, ceil_lt_iff (pos_of_isPowerOfTwo h) (dvd_size h)]
  unfold roundUp
  rw [if_pos h, add_eq, toNat_pred h]
  rcases hsum : fit (size.toNat + (unit.toNat - 1)) with e | sum
  · obtain ⟨rfl, hlarge⟩ := fit_eq_error_iff.mp hsum
    exact (fit_eq_error_iff.mpr ⟨rfl, hpast.mp hlarge⟩).symm
  · -- the sum has the bits of the multiple, and others that are cleared
    refine (fit_eq_ok_iff.mpr ?_).symm
    rw [toNat_and_not_pred h, fit_eq_ok_iff.mp hsum, ceil]

theorem roundUp_eq_ok_iff (h : isPowerOfTwo unit = true) {size r : UInt64} :
    roundUp size unit = .ok r ↔ r.toNat = ceil unit.toNat size.toNat := by
  rw [roundUp_eq h, fit_eq_ok_iff]

/-- Rounding up fails only where its result would be past the last word. -/
theorem roundUp_eq_error_iff (h : isPowerOfTwo unit = true) {size : UInt64} {e : Fault} :
    roundUp size unit = .error e ↔
      e = .addOverflow ∧ UInt64.size ≤ ceil unit.toNat size.toNat := by
  rw [roundUp_eq h, fit_eq_error_iff]

end Word

/-! ### Arenas -/

namespace Arena

variable {a : Arena} {size reserved : UInt64}

/-- **An allocation reaches** as far as the size takes the reserved part in multiples of the
alignment. -/
theorem advance_eq (h : Word.isPowerOfTwo a.alignment = true) (size : UInt64) :
    a.advance size = Word.fit (a.reserved.toNat + Word.ceil a.alignment.toNat size.toNat) := by
  unfold advance
  rw [Word.roundUp_eq h]
  rcases hround : Word.fit (Word.ceil a.alignment.toNat size.toNat) with e | w
  · -- what is too large by itself is too large for a sum
    obtain ⟨rfl, hpast⟩ := Word.fit_eq_error_iff.mp hround
    exact (Word.fit_eq_error_iff.mpr ⟨rfl, Nat.le_add_left_of_le hpast⟩).symm
  · rw [ok_bind, Word.add_eq, Word.fit_eq_ok_iff.mp hround]

/-- An allocation that succeeds reserves the size of its region, taken up to a multiple of the
alignment. -/
theorem advance_eq_ok_iff (h : Word.isPowerOfTwo a.alignment = true) :
    a.advance size = .ok reserved ↔
      reserved.toNat = a.reserved.toNat + Word.ceil a.alignment.toNat size.toNat := by
  rw [advance_eq h, Word.fit_eq_ok_iff]

/-- **An allocation fails** exactly where it would reach past the last word. -/
theorem advance_eq_error_iff (h : Word.isPowerOfTwo a.alignment = true) {e : Fault} :
    a.advance size = .error e ↔
      e = .addOverflow ∧
        2 ^ 64 - 1 < a.reserved.toNat + Word.ceil a.alignment.toNat size.toNat := by
  have hsize : UInt64.size = 2 ^ 64 := rfl
  rw [advance_eq h, Word.fit_eq_error_iff, hsize]
  refine and_congr_right fun _ => ?_
  omega

end Arena

end StackFront
