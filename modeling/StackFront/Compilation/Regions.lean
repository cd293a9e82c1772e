import StackFront.Diagnostics.Basic

/-!
# Conditional regions

Source text may be put into regions that are compiled only if a condition holds, and regions nest.
Inside a region whose condition is false everything is skipped, regions that begin there included,
whatever their conditions are.

Two numbers are enough to follow this: how many regions are open, and how many of them lie at or
inside the outermost one that is false. The latter are always the innermost ones, so leaving a
region takes one off both.
-/

namespace StackFront

/-- **The conditional regions that are open**: how many there are, and how many of them are
skipped. -/
structure Regions where
  opened : Nat
  skipped : Nat
deriving DecidableEq

namespace Regions

/-- No region is open. -/
def empty : Regions := ⟨0, 0⟩

/-- Whether what is read now is to be skipped. -/
def skips (r : Regions) : Bool := 0 < r.skipped

/-- Enters a region. It is skipped if its condition is false, or if it lies inside one that is. -/
def enter (r : Regions) (condition : Bool) : Regions where
  opened := r.opened + 1
  skipped := if r.skips || !condition then r.skipped + 1 else r.skipped

/-- Leaves the innermost region. There must be one. -/
def leave (r : Regions) : Except Cause Regions :=
  if r.opened = 0 then .error .unbalancedRegion
  else .ok ⟨r.opened - 1, r.skipped - 1⟩

/-- Accepts the regions only if none is open. -/
def allLeft (r : Regions) : Except Cause Unit :=
  if r.opened = 0 then .ok () else .error (.unclosedRegions r.opened)

end Regions

end StackFront
