/-!
# Definition flags

Switches that say how the definitions to come are meant. They are written as a number of four bits
where they have to be exchanged; `ofBits_bits` says that nothing is lost that way.
-/

namespace StackFront

/-- **How definitions are meant.** -/
structure Flags where
  /-- Structs defined now can be unpacked onto the stack. -/
  unpack : Bool
  /-- The body of a constructor is being read. -/
  constructing : Bool
  /-- Methods defined now are static. -/
  static : Bool
  /-- Procedures defined now take named arguments. -/
  named : Bool
deriving DecidableEq

namespace Flags

/-- No switch is on. -/
def none : Flags := ⟨false, false, false, false⟩

/-- The switches that are on in a number; bits above the fourth are ignored. -/
def ofBits (n : Nat) : Flags := ⟨n.testBit 0, n.testBit 1, n.testBit 2, n.testBit 3⟩

/-- The number that the switches are written as. -/
def bits (f : Flags) : Nat :=
  f.unpack.toNat + 2 * f.constructing.toNat + 4 * f.static.toNat + 8 * f.named.toNat

/-- The switches that are on, by name, in the order of their bits. -/
def names (f : Flags) : List String :=
  [(f.unpack, "UNPACK"), (f.constructing, "INIT"), (f.static, "STATIC"), (f.named, "NAMED")]
    |>.filterMap fun p => if p.1 then some p.2 else Option.none

/-- Two sets of switches, combined switch by switch. -/
def zip (g : Bool → Bool → Bool) (a b : Flags) : Flags :=
  ⟨g a.unpack b.unpack, g a.constructing b.constructing, g a.static b.static, g a.named b.named⟩

/-- The switches that are on in one set or in the other. -/
def insert (a b : Flags) : Flags := zip or a b

/-- The switches of the first set that are not on in the second. -/
def remove (a b : Flags) : Flags := zip (fun x y => x && !y) a b

/-- The switches of the first set, with those of the second turned over. -/
def toggle (a b : Flags) : Flags := zip xor a b

/-- Writing the switches as a number loses none of them. -/
theorem ofBits_bits (f : Flags) : ofBits f.bits = f := by
  rcases f with ⟨_ | _, _ | _, _ | _, _ | _⟩ <;> decide

end Flags

end StackFront
