import Mathlib.Algebra.Group.Nat.Defs
import Mathlib.Data.List.Basic
import StackFront.Names.Globals

/-!
# Plain numerals and reserved words

Many spellings are read as the same number, and one of them is its plain numeral: nothing but
digits, and no zero in front of others. Whether a word is a system call is decided by reading the
number that it ends in and printing this number again. So it has to be shown that the spellings
which survive this are the plain ones: that what is printed is plain, that it is read back, and that
a plain numeral is what its number is printed as.

The reader knows the numbers of 64 bits, and the printer knows all of them. As long as the system
calls are counted in 64 bits, nothing is lost by it.

* `IsPlain` is the notion, and `isPlain_iff` says that the plain numerals are the printed ones.
* `numeral?_eq_some_iff` says what the reader accepts, which is more.
* `reserves_iff_keyword_or_syscall` is the result.
-/

namespace StackFront

namespace Names

variable {digits spelling : List Char} {c : Char} {n limit : Nat} {word : String}

/-! ### Plain numerals -/

/-- **A plain numeral**: digits without a sign, and without leading zeros. -/
structure IsPlain (digits : List Char) : Prop where
  ne_nil : digits ≠ []
  isDigit : ∀ c ∈ digits, c.isDigit = true
  /-- A zero in front stands alone. -/
  leading : digits.head? = some '0' → digits = ['0']

/-- A digit is what its value is printed as. -/
theorem exists_of_isDigit (h : c.isDigit = true) :
    ∃ d < 10, c.toNat - '0'.toNat = d ∧ Nat.toDigits 10 d = [c] := by
  obtain ⟨hzero, hnine⟩ := Char.isDigit_iff_toNat.mp h
  have hfirst : '0'.toNat = 48 := rfl
  have hlast : '9'.toNat = 57 := rfl
  have hlt : c.toNat - '0'.toNat < 10 := by omega
  refine ⟨c.toNat - '0'.toNat, hlt, rfl, ?_⟩
  have hchar : (c.toNat - '0'.toNat).digitChar = c := by
    apply Char.toNat_inj.mp
    rw [Nat.toNat_digitChar_of_lt_ten hlt]
    omega
  rw [Nat.toDigits_of_lt_base hlt, hchar]

/-- **What is printed is plain.** -/
theorem isPlain_toDigits (n : Nat) : IsPlain (Nat.toDigits 10 n) where
  ne_nil := Nat.toDigits_ne_nil
  isDigit := fun _ hc => Nat.isDigit_of_mem_toDigits (by decide) (by decide) hc
  leading := by
    -- the digit in front is that of a tenth of the number, as long as this is not zero
    induction n using Nat.strongRecOn with
    | ind n ih =>
      intro hhead
      by_cases hlt : n < 10
      · rw [Nat.toDigits_of_lt_base hlt] at hhead ⊢
        exact congrArg (fun c => [c]) (Option.some.inj hhead)
      · have hle : 10 ≤ n := Nat.le_of_not_lt hlt
        have hdigits : Nat.toDigits 10 (n / 10) = ['0'] := by
          apply ih (n / 10) (by omega)
          have hsome : (Nat.toDigits 10 (n / 10)).head?.isSome = true := by simp
          rwa [Nat.toDigits_of_base_le (by decide) hle, List.head?_append,
            Option.or_of_isSome hsome] at hhead
        have htenth : n / 10 = 0 := by
          rw [← Nat.ofDigitChars_ten_toDigits (n := n / 10), hdigits]
          rfl
        omega

/-- Reading on behind a number that is not zero appends to what it is printed as. -/
theorem toDigits_append (hdigits : ∀ c ∈ digits, c.isDigit = true) (hn : 0 < n) :
    Nat.toDigits 10 n ++ digits = Nat.toDigits 10 (Nat.ofDigitChars 10 digits n) := by
  induction digits generalizing n with
  | nil => rw [List.append_nil, Nat.ofDigitChars_nil]
  | cons c digits ih =>
    obtain ⟨d, hd, hvalue, hprint⟩ := exists_of_isDigit (hdigits c List.mem_cons_self)
    have hrest : ∀ c ∈ digits, c.isDigit = true :=
      fun c hc => hdigits c (List.mem_cons_of_mem _ hc)
    calc Nat.toDigits 10 n ++ c :: digits
        = (Nat.toDigits 10 n ++ Nat.toDigits 10 d) ++ digits := by rw [hprint]; simp
      _ = Nat.toDigits 10 (10 * n + d) ++ digits := by
          rw [Nat.toDigits_append_toDigits (by decide) hn hd]
      _ = Nat.toDigits 10 (Nat.ofDigitChars 10 (c :: digits) n) := by
          rw [ih hrest (by omega), Nat.ofDigitChars_cons, hvalue]

/-- **A plain numeral is printed again** as it is. -/
theorem IsPlain.toDigits_ofDigitChars (h : IsPlain digits) :
    Nat.toDigits 10 (Nat.ofDigitChars 10 digits 0) = digits := by
  rcases digits with _ | ⟨c, digits⟩
  · exact absurd rfl h.ne_nil
  · obtain ⟨d, hd, hvalue, hprint⟩ := exists_of_isDigit (h.isDigit c List.mem_cons_self)
    have hrest : ∀ c ∈ digits, c.isDigit = true :=
      fun c hc => h.isDigit c (List.mem_cons_of_mem _ hc)
    rw [Nat.ofDigitChars_cons, hvalue, Nat.mul_zero, Nat.zero_add]
    by_cases hzero : d = 0
    · -- the digit in front is a zero, and there is no other
      subst hzero
      have hc : ['0'] = [c] := hprint
      obtain rfl : digits = [] := (List.cons.inj (h.leading (congrArg List.head? hc.symm))).2
      rw [Nat.ofDigitChars_nil, hprint]
    · rw [← toDigits_append hrest (Nat.pos_of_ne_zero hzero), hprint]
      rfl

/-- **The plain numerals are the printed ones.** -/
theorem isPlain_iff : IsPlain digits ↔ ∃ n, digits = Nat.toDigits 10 n := by
  constructor
  · intro h
    exact ⟨_, h.toDigits_ofDigitChars.symm⟩
  · rintro ⟨n, rfl⟩
    exact isPlain_toDigits n

/-! ### Reading numerals -/

theorem unsigned_of_isDigit (h : ∀ c ∈ digits, c.isDigit = true) : unsigned digits = digits := by
  unfold unsigned
  split
  · exact absurd (h '+' List.mem_cons_self) (by decide)
  · rfl

/-- Without its sign a spelling is what the reader looks at. -/
theorem unsigned_eq_iff (h : ∀ c ∈ digits, c.isDigit = true) :
    unsigned spelling = digits ↔ spelling = digits ∨ spelling = '+' :: digits := by
  constructor
  · rintro rfl
    unfold unsigned
    split
    · exact .inr rfl
    · exact .inl rfl
  · rintro (rfl | rfl)
    · exact unsigned_of_isDigit h
    · rfl

/-- **The reader of numerals** accepts one digit or more, with or without a plus sign, if their
number fits into 64 bits. -/
theorem numeral?_eq_some_iff :
    numeral? spelling = some n ↔ ∃ digits, (spelling = digits ∨ spelling = '+' :: digits) ∧
      digits ≠ [] ∧ (∀ c ∈ digits, c.isDigit = true) ∧ Nat.ofDigitChars 10 digits 0 = n ∧
      n < 2 ^ 64 := by
  have hread : numeral? spelling = some n ↔
      unsigned spelling ≠ [] ∧ (∀ c ∈ unsigned spelling, c.isDigit = true) ∧
        Nat.ofDigitChars 10 (unsigned spelling) 0 = n ∧ n < 2 ^ 64 := by
    unfold numeral?
    generalize unsigned spelling = digits
    by_cases hbad : (digits.isEmpty || !digits.all Char.isDigit) = true
    · rw [if_pos hbad]
      refine iff_of_false (by simp) fun ⟨hne, hdigits, _⟩ => ?_
      simp [hne, List.all_eq_true.mpr hdigits] at hbad
    · have hgood : digits ≠ [] ∧ ∀ c ∈ digits, c.isDigit = true := by simpa using hbad
      rw [if_neg hbad]
      by_cases hlt : Nat.ofDigitChars 10 digits 0 < UInt64.size
      · rw [if_pos hlt, Option.some.injEq]
        exact ⟨fun hvalue => ⟨hgood.1, hgood.2, hvalue, hvalue ▸ hlt⟩, fun h => h.2.2.1⟩
      · -- the number is too large, and it is the one that is meant
        rw [if_neg hlt]
        exact iff_of_false (by simp) fun ⟨_, _, hvalue, hbits⟩ => hlt (hvalue ▸ hbits)
  rw [hread]
  constructor
  · rintro ⟨hne, hdigits, hvalue, hlt⟩
    exact ⟨_, (unsigned_eq_iff hdigits).mp rfl, hne, hdigits, hvalue, hlt⟩
  · rintro ⟨digits, hspelling, hne, hdigits, hvalue, hlt⟩
    obtain rfl := (unsigned_eq_iff hdigits).mpr hspelling
    exact ⟨hne, hdigits, hvalue, hlt⟩

/-- A plain numeral of a number of 64 bits is read. -/
theorem numeral?_toDigits (h : n < 2 ^ 64) : numeral? (Nat.toDigits 10 n) = some n :=
  have hplain := isPlain_toDigits n
  numeral?_eq_some_iff.mpr
    ⟨_, .inl rfl, hplain.ne_nil, hplain.isDigit, Nat.ofDigitChars_ten_toDigits, h⟩

/-! ### Words for system calls -/

theorem toList_toString (n : Nat) : (toString n).toList = Nat.toDigits 10 n := by
  rw [Nat.toString_eq_repr, Nat.toList_repr]

theorem toList_syscallWord (n : Nat) :
    (syscallWord n).toList = "syscall".toList ++ Nat.toDigits 10 n := by
  rw [syscallWord, String.toList_append, toList_toString]
  rfl

theorem syscallNumber?_eq_some_iff :
    syscallNumber? word = some n ↔
      ∃ spelling, word.toList = "syscall".toList ++ spelling ∧ numeral? spelling = some n := by
  unfold syscallNumber?
  rw [Option.bind_eq_some_iff]
  simp only [List.isPrefixOf?_eq_some_iff_append_eq]
  exact exists_congr fun _ => and_congr_left fun _ => eq_comm

/-- **A word is that of a system call** if it is printed so for a number below the limit, as far as
numbers are read. -/
theorem isSyscall_iff :
    isSyscall limit word = true ↔ ∃ n < limit, n < 2 ^ 64 ∧ word = syscallWord n := by
  unfold isSyscall
  rw [Option.any_eq_true]
  simp only [Bool.and_eq_true, decide_eq_true_eq, beq_iff_eq]
  constructor
  · rintro ⟨n, hread, hlt, hword⟩
    obtain ⟨spelling, -, hnumeral⟩ := syscallNumber?_eq_some_iff.mp hread
    obtain ⟨-, -, -, -, -, hbits⟩ := numeral?_eq_some_iff.mp hnumeral
    exact ⟨n, hlt, hbits, hword⟩
  · rintro ⟨n, hlt, hbits, rfl⟩
    have hread : syscallNumber? (syscallWord n) = some n :=
      syscallNumber?_eq_some_iff.mpr ⟨_, toList_syscallWord n, numeral?_toDigits hbits⟩
    exact ⟨n, hread, hlt, rfl⟩

end Names

/-! ### Reserved words -/

namespace Globals

open Names (IsPlain keywords numeral?)

/-- No keyword begins like the word for a system call. -/
theorem not_mem_keywords (suffix : String) : "syscall" ++ suffix ∉ keywords := by
  have hkeywords : ∀ keyword ∈ keywords, ¬ "syscall".toList <+: keyword.toList := by decide
  intro hmem
  refine hkeywords _ hmem ?_
  rw [String.toList_append]
  exact List.prefix_append _ _

/-- **The reserved words** are the keywords and the words for system calls. As long as the system
calls are counted in 64 bits, a word that begins like one for a system call is reserved exactly if
it ends in the plain numeral of a number below their count. Another spelling that is read as such a
number is free, and so are the numbers that do not fit into 64 bits. -/
theorem reserves_iff_keyword_or_syscall {g : Globals} (hg : g.syscalls < 2 ^ 64) :
    (∀ name, g.reserves name = true ↔
        name ∈ keywords ∨ ∃ n < g.syscalls, name = "syscall" ++ toString n) ∧
      (∀ suffix : String, g.reserves ("syscall" ++ suffix) = true ↔
        IsPlain suffix.toList ∧ Nat.ofDigitChars 10 suffix.toList 0 < g.syscalls) ∧
      (∀ (suffix : String) n, numeral? suffix.toList = some n → suffix ≠ toString n →
        g.reserves ("syscall" ++ suffix) = false) ∧
      ∀ n, 2 ^ 64 ≤ n → g.reserves ("syscall" ++ toString n) = false := by
  have hwords : ∀ name, g.reserves name = true ↔
      name ∈ keywords ∨ ∃ n < g.syscalls, name = "syscall" ++ toString n := by
    intro name
    rw [reserves, Names.isReserved, Bool.or_eq_true, List.contains_iff_mem, Names.isSyscall_iff]
    -- the numbers below the count are numbers of 64 bits
    have hbits : ∀ n, n < g.syscalls → n < 2 ^ 64 := fun n hn => Nat.lt_trans hn hg
    refine or_congr_right (exists_congr fun n => ?_)
    exact ⟨fun ⟨hn, _, hword⟩ => ⟨hn, hword⟩, fun ⟨hn, hword⟩ => ⟨hn, hbits n hn, hword⟩⟩
  have hsuffix : ∀ suffix : String, g.reserves ("syscall" ++ suffix) = true ↔
      ∃ n < g.syscalls, suffix.toList = Nat.toDigits 10 n := by
    intro suffix
    rw [hwords, or_iff_right (not_mem_keywords suffix)]
    refine exists_congr fun n => and_congr_right fun _ => ?_
    rw [← String.toList_inj, String.toList_append, String.toList_append, Names.toList_toString,
      List.append_cancel_left_eq]
  refine ⟨hwords, fun suffix => ?_, fun suffix n hread hne => ?_, fun n hn => ?_⟩
  · rw [hsuffix]
    constructor
    · rintro ⟨n, hn, hdigits⟩
      rw [hdigits, Nat.ofDigitChars_ten_toDigits]
      exact ⟨Names.isPlain_toDigits n, hn⟩
    · rintro ⟨hplain, hn⟩
      obtain ⟨n, hdigits⟩ := Names.isPlain_iff.mp hplain
      rw [hdigits, Nat.ofDigitChars_ten_toDigits] at hn
      exact ⟨n, hn, hdigits⟩
  · -- what is printed is read as the same number, and there is only one that is read
    rw [Bool.eq_false_iff, ne_eq, hsuffix]
    rintro ⟨m, hm, hdigits⟩
    rw [hdigits, Names.numeral?_toDigits (Nat.lt_trans hm hg)] at hread
    obtain rfl := Option.some.inj hread
    refine hne (String.toList_inj.mp ?_)
    rw [hdigits, Names.toList_toString]
  · rw [Bool.eq_false_iff, ne_eq, hsuffix]
    rintro ⟨m, hm, hdigits⟩
    rw [Names.toList_toString] at hdigits
    have hmn := congrArg (Nat.ofDigitChars 10 · 0) hdigits
    simp only [Nat.ofDigitChars_ten_toDigits] at hmn
    omega

/-- Where there are seven system calls, only the plain spelling of six is reserved. A number that
would wrap around to six is free as well. -/
theorem syscall_six_reserved_once :
    ∃ g, create 7 8 = .ok g ∧ g.reserves "syscall6" = true ∧ g.reserves "syscall06" = false ∧
      g.reserves "syscall+6" = false ∧ g.reserves ("syscall" ++ toString (2 ^ 64 + 6)) = false := by
  obtain ⟨g, hg⟩ : ∃ g, create 7 8 = .ok g := ⟨_, rfl⟩
  have hcount : g.syscalls = 7 := by
    cases hg
    rfl
  obtain ⟨hwords, -, hmerely, hlarge⟩ :=
    reserves_iff_keyword_or_syscall (g := g) (by rw [hcount]; decide)
  refine ⟨g, hg, ?_, ?_, ?_, ?_⟩
  · exact (hwords _).mpr (.inr ⟨6, by rw [hcount]; decide, rfl⟩)
  · exact hmerely "06" 6 (by decide) (by decide)
  · exact hmerely "+6" 6 (by decide) (by decide)
  · exact hlarge _ (by decide)

end Globals

end StackFront
