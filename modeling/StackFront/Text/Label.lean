/-!
# Labels

Log records and inspected values name a value by the constructor that built it, with what it was
built from in brackets: `ProcId(3)`, `Some(StructId(0))`, `None`. This module holds the forms that
several kinds of value share.
-/

namespace StackFront.Text

variable {α : Type}

/-- A constructor with one argument, which has no name. -/
def applied (constructor argument : String) : String := constructor ++ "(" ++ argument ++ ")"

/-- A value that may be absent, by the label of the value. -/
def optional (label : α → String) : Option α → String
  | none => "None"
  | some a => applied "Some" (label a)

/-- A constructor with named fields, in the order of their declaration. -/
def fields (constructor : String) (parts : List (String × String)) : String :=
  constructor ++ " \x7b " ++
    ", ".intercalate (parts.map fun p => p.1 ++ ": " ++ p.2) ++ " \x7d"

/-- A constructor with named fields of which not all are shown. -/
def someFields (constructor : String) (parts : List (String × String)) : String :=
  constructor ++ " \x7b " ++
    String.join (parts.map fun p => p.1 ++ ": " ++ p.2 ++ ", ") ++ ".. \x7d"

/-- Labels in square brackets. -/
def listed (labels : List String) : String := "[" ++ ", ".intercalate labels ++ "]"

end StackFront.Text
