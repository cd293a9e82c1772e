import StackFront.Text.Label
import StackFront.Text.Quoted

/-!
# Source locations

A location names a file, a line and a column. Lines and columns are counted from one; the location
`unknown`, in force before any token has been read, has both at zero.
-/

namespace StackFront

/-- **A place in the source text.** -/
structure Location where
  file : String
  line : Nat
  column : Nat
deriving DecidableEq

namespace Location

/-- The place in force before any token has been read. -/
def unknown : Location := ⟨"<unknown>", 0, 0⟩

/-- The beginning of a file. -/
def origin (file : String) : Location := ⟨file, 1, 1⟩

/-- The written form: file, line and column between colons. -/
def text (l : Location) : String := s!"{l.file}:{l.line}:{l.column}"

/-- The inspected form, part by part. -/
def inspect (l : Location) : String :=
  Text.fields "Location"
    [("file", Text.quoted l.file), ("line", toString l.line), ("column", toString l.column)]

end Location

end StackFront
