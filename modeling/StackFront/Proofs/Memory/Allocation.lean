import StackFront.Memory.Arena

/-!
# What an allocation leaves behind

An allocation extends an arena: the next region is entered under its name, and the reserved part
ends further on. How far is a matter of machine words and left open here, so that `Arena.extended`
takes the new end as it comes.

* `contains_extended` and `get?_extended` say what names the extended arena has, and for which
  regions.
* `create_eq_ok_iff` says what a new arena is, and when there is one.
-/

namespace StackFront.Arena

/-- The arena with the next region handed out, so that the reserved part ends at `reserved`. -/
def extended (a : Arena) (name : String) (reserved : UInt64) : Arena :=
  { a with reserved, regions := a.regions.insert name (a.nextRegion name) }

/-- After an allocation the arena has the names it had, and the new one. -/
theorem contains_extended (a : Arena) (name : String) (reserved : UInt64) (n : String) :
    (a.extended name reserved).contains n = (decide (name = n) || a.contains n) :=
  a.regions.contains_insert name (a.nextRegion name) n

theorem get?_extended (a : Arena) (name : String) (reserved : UInt64) (n : String) :
    (a.extended name reserved).get? n = if name = n then some (a.nextRegion name) else a.get? n :=
  a.regions.get?_insert name (a.nextRegion name) n

variable {owner : ArenaOwner} {alignment : UInt64} {a : Arena}

theorem create_eq_ok_iff :
    create owner alignment = .ok a ↔
      Word.isPowerOfTwo alignment = true ∧ a = ⟨owner, alignment, 0, ∅⟩ := by
  unfold create
  split
  · next h => simp [h, eq_comm]
  · next h => simp [h]

theorem contains_create (h : create owner alignment = .ok a) (n : String) :
    a.contains n = false := by
  obtain ⟨-, rfl⟩ := create_eq_ok_iff.mp h
  rfl

end StackFront.Arena
