import Mathlib.Data.List.Basic
import StackFront.Proofs.Names.Numerals
import StackFront.Diagnostics.Basic

/-!
# Messages say what is wrong without ambiguity

A message quotes names and closing words as they stand. A name may hold quotation marks and spaces,
or the text of another message, and nothing in it is escaped. A reader of the message can still tell
what is meant: what is quoted comes last in the front part of a sentence or first in its back part,
and the words around it are fixed but for a single one, which has no space in it.

So a message is taken apart from its two ends, and the quoted text is what remains in the middle. Two
questions have to be settled first, since the ends are those of a sentence of one kind: which kind of
cause a message is about, and where the single word ends.

* `shownLabel` reads the kind of the cause off a message, and `shownLabel_message` says that it does.
* `split_at_space` and `split_at_last_space` cut out a word.
* `message_inj` is the result.
-/

namespace StackFront

/-! ### Words and their ends -/

section Cutting

variable {w w' x x' : List Char}

/-- Behind a word without a space, the rest of a text begins at the first space. -/
theorem split_at_space (hw : ' ' ∉ w) (hw' : ' ' ∉ w') (h : w ++ ' ' :: x = w' ++ ' ' :: x') :
    w = w' ∧ x = x' := by
  -- if one word were longer, the space behind the other one would be in it
  rcases List.append_eq_append_iff.mp h with ⟨_ | ⟨c, as⟩, rfl, hx⟩ | ⟨_ | ⟨c, as⟩, rfl, hx⟩
  · exact ⟨(List.append_nil w).symm, (List.cons.inj hx).2⟩
  · obtain ⟨rfl, -⟩ := List.cons.inj hx
    exact absurd (List.mem_append_right w List.mem_cons_self) hw'
  · exact ⟨List.append_nil w', (List.cons.inj hx).2.symm⟩
  · obtain ⟨rfl, -⟩ := List.cons.inj hx
    exact absurd (List.mem_append_right w' List.mem_cons_self) hw

/-- In front of a word without a space, the rest of a text ends at the last space. -/
theorem split_at_last_space (hw : ' ' ∉ w) (hw' : ' ' ∉ w')
    (h : x ++ ' ' :: w = x' ++ ' ' :: w') : x = x' ∧ w = w' := by
  have hreverse : w.reverse ++ ' ' :: x.reverse = w'.reverse ++ ' ' :: x'.reverse := by
    simpa using congrArg List.reverse h
  obtain ⟨hword, hrest⟩ :=
    split_at_space (by rwa [List.mem_reverse]) (by rwa [List.mem_reverse]) hreverse
  exact ⟨List.reverse_inj.mp hrest, List.reverse_inj.mp hword⟩

theorem suffix_append {s t : String} (h : w <:+ t.toList) : w <:+ (s ++ t).toList := by
  rw [String.toList_append]
  exact List.suffix_append_of_suffix h

/-- Whether a text ends in a word shows in any part of its end that is long enough. -/
theorem not_suffix_append {s t : String} (hle : w.length ≤ t.toList.length)
    (h : ¬ w <:+ t.toList) : ¬ w <:+ (s ++ t).toList := by
  rw [String.toList_append]
  exact fun hw => h (List.suffix_of_suffix_length_le hw (List.suffix_append _ _) hle)

end Cutting

theorem Entity.space_not_mem_word (e : Entity) : ' ' ∉ e.word.toList := by
  cases e <;> decide

theorem Entity.word_inj {e e' : Entity} : e.word = e'.word ↔ e = e' := by
  constructor
  · cases e <;> cases e' <;> first | exact fun _ => rfl | exact fun h => absurd h (by decide)
  · rintro rfl
    rfl

theorem BlockKind.space_not_mem_word (k : BlockKind) : ' ' ∉ k.word.toList := by
  cases k <;> decide

theorem BlockKind.word_inj {k k' : BlockKind} : k.word = k'.word ↔ k = k' := by
  constructor
  · cases k <;> cases k' <;> first | exact fun _ => rfl | exact fun h => absurd h (by decide)
  · rintro rfl
    rfl

/-- Different numbers are printed differently. -/
theorem toString_nat_inj {n n' : Nat} : toString n = toString n' ↔ n = n' := by
  constructor
  · intro h
    have hdigits : Nat.toDigits 10 n = Nat.toDigits 10 n' := by
      rw [← Names.toList_toString, ← Names.toList_toString, h]
    calc n = Nat.ofDigitChars 10 (Nat.toDigits 10 n) 0 := Nat.ofDigitChars_ten_toDigits.symm
      _ = Nat.ofDigitChars 10 (Nat.toDigits 10 n') 0 := by rw [hdigits]
      _ = n' := Nat.ofDigitChars_ten_toDigits
  · rintro rfl
    rfl

namespace Cause

/-! ### The kind of a cause -/

/-- **The kind of cause that a sentence is about.** Most kinds are known by the first character; where
two begin alike, they are told apart by their last word, or by their first. -/
def shownLabel (sentence : List Char) : String :=
  if sentence.head? = some 'n' then
    if "taken".toList <:+ sentence then "NameCollision" else "ReservedName"
  else if sentence.head? = some '"' then
    -- no word for a block ends like the word `open`
    if "n block".toList <:+ sentence then "UnexpectedClose" else "BlockMismatch"
  else if sentence.head? = some 'u' then
    if "und".toList <+: sentence then "UndefinedReference" else "UnclosedBlock"
  else if sentence.head? = some 'c' then "UnbalancedCompileIf"
  else if sentence.head? = some 'i' then "NotAProcedureBlock"
  else "UnclosedCompileIf"

/-- **The kind of a cause shows in its message.** -/
theorem shownLabel_message (c : Cause) : shownLabel c.message.toList = c.label := by
  cases c with
  | nameCollision entity name =>
    have hhead : (nameCollision entity name).message.toList.head? = some 'n' := by
      show ("name for " ++ entity.word ++ " \"" ++ name ++ "\" is already taken").toList.head? = _
      simp
    have hend : "taken".toList <:+ (nameCollision entity name).message.toList :=
      suffix_append (by decide)
    rw [shownLabel, if_pos hhead, if_pos hend]
    rfl
  | reservedName entity name =>
    have hhead : (reservedName entity name).message.toList.head? = some 'n' := by
      show ("name for " ++ entity.word ++ " \"" ++ name ++ "\" is unavailable").toList.head? = _
      simp
    have hend : ¬ "taken".toList <:+ (reservedName entity name).message.toList :=
      not_suffix_append (by decide) (by decide)
    rw [shownLabel, if_pos hhead, if_neg hend]
    rfl
  | unexpectedClose closing =>
    have hhead : (unexpectedClose closing).message.toList.head? = some '"' := by
      show ("\"" ++ closing ++ "\" without an open block").toList.head? = _
      simp
    have hend : "n block".toList <:+ (unexpectedClose closing).message.toList :=
      suffix_append (by decide)
    simp only [shownLabel, hhead, hend]
    rfl
  | blockMismatch closing found =>
    -- the word for the block has to be seen together with what comes behind it
    have htext : (blockMismatch closing found).message =
        "\"" ++ closing ++ "\" cannot close a " ++ (found.word ++ " block") :=
      String.append_assoc
    have hhead : (blockMismatch closing found).message.toList.head? = some '"' := by
      rw [htext]
      simp
    have hend : ¬ "n block".toList <:+ (blockMismatch closing found).message.toList := by
      rw [htext]
      exact not_suffix_append (by cases found <;> decide) (by cases found <;> decide)
    simp only [shownLabel, hhead, hend]
    rfl
  | unclosedBlock kind start =>
    have htext : (unclosedBlock kind start).message.toList = 'u' :: 'n' :: 'c' ::
        ("losed " ++ kind.word ++ " block opened at instruction " ++ toString start).toList := by
      show ("unclosed " ++ kind.word ++ " block opened at instruction " ++ toString start).toList = _
      simp
    have hbegin : ¬ "und".toList <+: (unclosedBlock kind start).message.toList := by
      rw [htext]
      simp
    simp only [shownLabel, hbegin]
    rw [htext]
    rfl
  | unbalancedRegion => rfl
  | unclosedRegions count =>
    have htext : (unclosedRegions count).message.toList = Nat.toDigits 10 count ++
        " conditional compilation region(s) left open".toList := by
      rw [← Names.toList_toString, ← String.toList_append]
      rfl
    rcases hdigits : Nat.toDigits 10 count with _ | ⟨c, digits⟩
    · exact absurd hdigits Nat.toDigits_ne_nil
    · -- the number in front begins with a digit, and no other sentence does
      have hdigit : c.isDigit = true := by
        apply (Names.isPlain_toDigits count).isDigit
        rw [hdigits]
        exact List.mem_cons_self
      have hne : ∀ d, d.isDigit = false → some c ≠ some d := by
        rintro d hd heq
        rw [Option.some.inj heq, hd] at hdigit
        cases hdigit
      rw [htext, hdigits, List.cons_append, shownLabel, List.head?_cons, if_neg (hne 'n' rfl),
        if_neg (hne '"' rfl), if_neg (hne 'u' rfl), if_neg (hne 'c' rfl), if_neg (hne 'i' rfl)]
      rfl
  | undefinedReference entity name =>
    have htext : (undefinedReference entity name).message.toList = 'u' :: 'n' :: 'd' ::
        ("efined " ++ entity.word ++ " \"" ++ name ++ "\"").toList := by
      show ("undefined " ++ entity.word ++ " \"" ++ name ++ "\"").toList = _
      simp
    have hbegin : "und".toList <+: (undefinedReference entity name).message.toList := by
      rw [htext]
      simp
    simp only [shownLabel, hbegin]
    rw [htext]
    rfl
  | notAProcedure ip =>
    have hhead : (notAProcedure ip).message.toList.head? = some 'i' := by
      show ("instruction " ++ toString ip ++ " does not define a procedure").toList.head? = _
      simp
    simp only [shownLabel, hhead]
    rfl

/-! ### What is quoted -/

/-- A name is what stands between the first quotation mark of a sentence and what closes it. -/
theorem quoted_name_inj {front back : String} {e e' : Entity} {name name' : String}
    (h : front ++ e.word ++ " \"" ++ name ++ back = front ++ e'.word ++ " \"" ++ name' ++ back) :
    e = e' ∧ name = name' := by
  have htext : ∀ (e : Entity) (name : String), (front ++ e.word ++ " \"" ++ name).toList =
      front.toList ++ (e.word.toList ++ ' ' :: '"' :: name.toList) := by
    intro e name
    simp
  have hfront := congrArg String.toList ((String.append_left_inj back).mp h)
  rw [htext, htext] at hfront
  obtain ⟨hword, hname⟩ := split_at_space e.space_not_mem_word e'.space_not_mem_word
    (List.append_cancel_left hfront)
  exact ⟨Entity.word_inj.mp (String.toList_inj.mp hword),
    String.toList_inj.mp (List.cons.inj hname).2⟩

/-- A closing word is all that stands in front of what is said of it. The block that it does not close
is the last word but one. -/
theorem mismatch_inj {closing closing' : String} {found found' : BlockKind}
    (h : (blockMismatch closing found).message = (blockMismatch closing' found').message) :
    closing = closing' ∧ found = found' := by
  have htext : ∀ (closing : String) (found : BlockKind),
      (blockMismatch closing found).message.toList =
        ('"' :: (closing.toList ++ "\" cannot close a".toList) ++ ' ' :: found.word.toList) ++
          " block".toList := by
    intro closing found
    show ("\"" ++ closing ++ "\" cannot close a " ++ found.word ++ " block").toList = _
    simp
  have hlists := congrArg String.toList h
  rw [htext, htext] at hlists
  obtain ⟨hclosing, hfound⟩ := split_at_last_space found.space_not_mem_word
    found'.space_not_mem_word (List.append_cancel_right hlists)
  exact ⟨String.toList_inj.mp (List.append_cancel_right (List.cons.inj hclosing).2),
    BlockKind.word_inj.mp (String.toList_inj.mp hfound)⟩

theorem unclosed_inj {kind kind' : BlockKind} {start start' : Nat}
    (h : (unclosedBlock kind start).message = (unclosedBlock kind' start').message) :
    kind = kind' ∧ start = start' := by
  have htext : ∀ (kind : BlockKind) (start : Nat), (unclosedBlock kind start).message.toList =
      "unclosed ".toList ++ (kind.word.toList ++
        ' ' :: ("block opened at instruction ".toList ++ (toString start).toList)) := by
    intro kind start
    show ("unclosed " ++ kind.word ++ " block opened at instruction " ++ toString start).toList = _
    simp
  have hlists := congrArg String.toList h
  rw [htext, htext] at hlists
  obtain ⟨hkind, hstart⟩ := split_at_space kind.space_not_mem_word kind'.space_not_mem_word
    (List.append_cancel_left hlists)
  exact ⟨BlockKind.word_inj.mp (String.toList_inj.mp hkind),
    toString_nat_inj.mp (String.toList_inj.mp (List.append_cancel_left hstart))⟩

/-- **Messages are unambiguous**: causes with the same message are the same, whatever names and closing
words are quoted in it. -/
theorem message_inj {c c' : Cause} : c.message = c'.message ↔ c = c' := by
  refine ⟨fun h => ?_, congrArg message⟩
  -- both are of one kind, and then what they are made of has to be read off
  have hlabel : c.label = c'.label := by
    rw [← shownLabel_message, ← shownLabel_message, h]
  cases c with
  | nameCollision entity name =>
    cases c' with
    | nameCollision entity' name' =>
      obtain ⟨rfl, rfl⟩ := quoted_name_inj h
      rfl
    | _ => simp [label] at hlabel
  | reservedName entity name =>
    cases c' with
    | reservedName entity' name' =>
      obtain ⟨rfl, rfl⟩ := quoted_name_inj h
      rfl
    | _ => simp [label] at hlabel
  | unexpectedClose closing =>
    cases c' with
    | unexpectedClose closing' =>
      have hclosing := (String.append_left_inj "\" without an open block").mp h
      obtain rfl := (String.append_right_inj "\"").mp hclosing
      rfl
    | _ => simp [label] at hlabel
  | blockMismatch closing found =>
    cases c' with
    | blockMismatch closing' found' =>
      obtain ⟨rfl, rfl⟩ := mismatch_inj h
      rfl
    | _ => simp [label] at hlabel
  | unclosedBlock kind start =>
    cases c' with
    | unclosedBlock kind' start' =>
      obtain ⟨rfl, rfl⟩ := unclosed_inj h
      rfl
    | _ => simp [label] at hlabel
  | unbalancedRegion =>
    cases c' with
    | unbalancedRegion => rfl
    | _ => simp [label] at hlabel
  | unclosedRegions count =>
    cases c' with
    | unclosedRegions count' =>
      have hcount := (String.append_left_inj " conditional compilation region(s) left open").mp h
      obtain rfl := toString_nat_inj.mp hcount
      rfl
    | _ => simp [label] at hlabel
  | undefinedReference entity name =>
    cases c' with
    | undefinedReference entity' name' =>
      obtain ⟨rfl, rfl⟩ := quoted_name_inj h
      rfl
    | _ => simp [label] at hlabel
  | notAProcedure ip =>
    cases c' with
    | notAProcedure ip' =>
      have hnumber := (String.append_left_inj " does not define a procedure").mp h
      obtain rfl := toString_nat_inj.mp ((String.append_right_inj "instruction ").mp hnumber)
      rfl
    | _ => simp [label] at hlabel

end Cause

end StackFront
