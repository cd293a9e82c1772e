import Mathlib.Order.Bounds.Basic
import StackFront.Proofs.Memory.Rounding

/-!
# Rounding up adds the padding

What lies between the end of a size and the next multiple of the unit is the *padding* of the size.
It can be read off the size alone, as a remainder of a remainder, without looking for the multiple.
Rounding up never computes it: it adds one less than the unit, which is as much as any padding comes
to, and clears what was too much. So its sum is larger than its result, and one might think that a
size close to the last word is lost to a sum that does not fit, although its multiple would. This
never happens, for any of the sixty-four units.

* `padding` is the formula, and `isLeast_add_padding` says that it leads to the least multiple.
* `exists_roundUp`, `roundUp_of_roundUp` and `exists_roundUp_of_le` carry what holds of the least
  multiple over to words: that there is one, that it is taken no further (`ceil_of_dvd`), and that
  it grows with the size (`ceil_mono`).
* `roundUp_pads_exactly` is the result.
-/

namespace StackFront.Word

/-- **The padding of a size**, which takes it to the next multiple of the unit. -/
def padding (unit n : Nat) : Nat := (unit - n % unit) % unit

section Multiples

variable {unit m n : Nat}

theorem padding_lt (hu : 0 < unit) (n : Nat) : padding unit n < unit :=
  Nat.mod_lt _ hu

/-- The padding fills what a size has begun of a unit. -/
theorem dvd_add_padding (hu : 0 < unit) (n : Nat) : unit ∣ n + padding unit n := by
  have hdivision := Nat.div_add_mod n unit
  unfold padding
  by_cases hbegun : n % unit = 0
  · rw [hbegun, Nat.sub_zero, Nat.mod_self]
    exact Nat.dvd_of_mod_eq_zero hbegun
  · have hmod := Nat.mod_lt n hu
    rw [Nat.mod_eq_of_lt (a := unit - n % unit) (by omega)]
    refine ⟨n / unit + 1, ?_⟩
    calc n + (unit - n % unit) = unit * (n / unit) + unit := by omega
      _ = unit * (n / unit + 1) := rfl

/-- **A size with its padding** is the least multiple of the unit that is not smaller. -/
theorem isLeast_add_padding (hu : 0 < unit) (n : Nat) :
    IsLeast {m | unit ∣ m ∧ n ≤ m} (n + padding unit n) := by
  refine ⟨⟨dvd_add_padding hu n, Nat.le_add_right _ _⟩, ?_⟩
  rintro m ⟨hm, hle⟩
  -- two multiples that differ are at least a unit apart, and the padding is less than that
  by_contra hlt
  have hdistance : unit ∣ n + padding unit n - m := Nat.dvd_sub (dvd_add_padding hu n) hm
  have hunit : unit ≤ n + padding unit n - m := Nat.le_of_dvd (by omega) hdistance
  have hpad := padding_lt hu n
  omega

theorem ceil_eq_add_padding (hu : 0 < unit) (n : Nat) : ceil unit n = n + padding unit n :=
  (ceil_isLeast hu n).unique (isLeast_add_padding hu n)

theorem ceil_mono (hu : 0 < unit) (h : m ≤ n) : ceil unit m ≤ ceil unit n :=
  (ceil_isLeast hu n).mono (ceil_isLeast hu m) fun _ ⟨hdvd, hle⟩ => ⟨hdvd, h.trans hle⟩

/-- A multiple of the unit is taken no further. -/
theorem ceil_of_dvd (hu : 0 < unit) (h : unit ∣ n) : ceil unit n = n :=
  (ceil_isLeast hu n).unique ⟨⟨h, le_rfl⟩, fun _ ⟨_, hle⟩ => hle⟩

end Multiples

/-! ### Machine words -/

variable {unit size size' r r' : UInt64}

/-- There is a result if the multiple that is meant is a word. -/
theorem exists_roundUp (h : isPowerOfTwo unit = true)
    (hfits : ceil unit.toNat size.toNat < UInt64.size) :
    ∃ r, roundUp size unit = .ok r ∧ r.toNat = ceil unit.toNat size.toNat := by
  have hword := UInt64.toNat_ofNat_of_lt' hfits
  exact ⟨_, (roundUp_eq_ok_iff h).mpr hword, hword⟩

theorem le_of_roundUp (h : isPowerOfTwo unit = true) (hr : roundUp size unit = .ok r) :
    size ≤ r := by
  rw [UInt64.le_iff_toNat_le, (roundUp_eq_ok_iff h).mp hr]
  exact (ceil_isLeast (pos_of_isPowerOfTwo h) _).1.2

/-- What has been rounded up is its own result. -/
theorem roundUp_of_roundUp (h : isPowerOfTwo unit = true) (hr : roundUp size unit = .ok r) :
    roundUp r unit = .ok r := by
  have hpos := pos_of_isPowerOfTwo h
  have hdvd : unit.toNat ∣ r.toNat := by
    rw [(roundUp_eq_ok_iff h).mp hr]
    exact (ceil_isLeast hpos _).1.1
  exact (roundUp_eq_ok_iff h).mpr (ceil_of_dvd hpos hdvd).symm

/-- **Rounding up is monotone**: where a size has a result, a smaller one has a result that is not
larger. -/
theorem exists_roundUp_of_le (h : isPowerOfTwo unit = true) (hle : size ≤ size')
    (hr' : roundUp size' unit = .ok r') : ∃ r, roundUp size unit = .ok r ∧ r ≤ r' := by
  have hmono := ceil_mono (pos_of_isPowerOfTwo h) (UInt64.le_iff_toNat_le.mp hle)
  rw [← (roundUp_eq_ok_iff h).mp hr'] at hmono
  obtain ⟨r, hr, hnat⟩ := exists_roundUp h (Nat.lt_of_le_of_lt hmono r'.toNat_lt)
  exact ⟨r, hr, UInt64.le_iff_toNat_le.mpr (hnat ▸ hmono)⟩

/-- **Rounding up is exact**, up to the last word. For every unit, a power of two, and every size
there is a least multiple of the unit that is not smaller, the size with its padding. It is the
result if it is a word, and if it is none there is a fault, so that no fault is owed to the way in
which the result is computed. It follows that a result is not below its size and is its own result,
and that whatever is smaller than a size that has a result has one too, which is not larger. -/
theorem roundUp_pads_exactly {k : Nat} (hk : unit.toNat = 2 ^ k) :
    (∀ size : UInt64, ∃ m, IsLeast {m | unit.toNat ∣ m ∧ size.toNat ≤ m} m ∧
        m = size.toNat + padding unit.toNat size.toNat ∧
        (∀ e, roundUp size unit = .error e ↔ e = .addOverflow ∧ 2 ^ 64 ≤ m) ∧
        (m < 2 ^ 64 → ∃ r, roundUp size unit = .ok r ∧ r.toNat = m)) ∧
      (∀ size r, roundUp size unit = .ok r → size ≤ r ∧ roundUp r unit = .ok r) ∧
      ∀ size size' r', size ≤ size' → roundUp size' unit = .ok r' →
        ∃ r, roundUp size unit = .ok r ∧ r ≤ r' := by
  have hunit : isPowerOfTwo unit = true := isPowerOfTwo_iff.mpr ⟨k, hk⟩
  have hpos : 0 < unit.toNat := pos_of_isPowerOfTwo hunit
  refine ⟨fun size => ?_, fun size r hr => ?_, fun size size' r' => exists_roundUp_of_le hunit⟩
  · refine ⟨ceil unit.toNat size.toNat, ceil_isLeast hpos _, ceil_eq_add_padding hpos _,
      fun e => ?_, exists_roundUp hunit⟩
    rw [roundUp_eq_error_iff hunit]
    rfl
  · exact ⟨le_of_roundUp hunit hr, roundUp_of_roundUp hunit hr⟩

/-- The last multiple of eight among the words is the result of itself, and of the size before it.
The size behind it has no result, since its padding takes it past the last word. -/
theorem last_multiple_of_eight :
    (8 : UInt64).toNat = 2 ^ 3 ∧ roundUp 0xfffffffffffffff7 8 = .ok 0xfffffffffffffff8 ∧
      roundUp 0xfffffffffffffff8 8 = .ok 0xfffffffffffffff8 ∧
      roundUp 0xfffffffffffffff9 8 = .error .addOverflow := by
  obtain ⟨hexact, hresult, -⟩ := @roundUp_pads_exactly 8 3 (by decide)
  have hbefore : roundUp 0xfffffffffffffff7 8 = .ok 0xfffffffffffffff8 := by
    obtain ⟨m, -, rfl, -, hfits⟩ := hexact 0xfffffffffffffff7
    obtain ⟨r, hr, hnat⟩ := hfits (by decide)
    have hlast : r = 0xfffffffffffffff8 := UInt64.toNat_inj.mp (hnat.trans (by decide))
    rw [hr, hlast]
  obtain ⟨m, -, rfl, hpast, -⟩ := hexact 0xfffffffffffffff9
  exact ⟨by decide, hbefore, (hresult _ _ hbefore).2, (hpast _).mpr ⟨rfl, by decide⟩⟩

end StackFront.Word
