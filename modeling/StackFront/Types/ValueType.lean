import StackFront.Handle

/-!
# Data types

The types that stack signatures and struct fields speak of: three basic ones, one that matches
anything, and a struct by value or by pointer.
-/

namespace StackFront

/-- **The type of a value on the stack or in a field.** -/
inductive ValueType where
  | int | bool | ptr | any
  | struct (id : StructId)
  | structPtr (id : StructId)
deriving DecidableEq

namespace ValueType

/-- The struct a type is about, be it by value or by pointer. -/
def struct? : ValueType → Option StructId
  | struct id => some id
  | structPtr id => some id
  | _ => none

/-- The written form. A struct is known by its handle, and an asterisk says that it is pointed to.
-/
def text : ValueType → String
  | int => "int"
  | bool => "bool"
  | ptr => "ptr"
  | any => "any"
  | struct id => s!"struct#{id.index}"
  | structPtr id => s!"*struct#{id.index}"

end ValueType

/-- **A field of a struct.** -/
structure Field where
  name : String
  type : ValueType
deriving DecidableEq

/-- **A binding**: a name that stands for a value of some type on the stack. -/
structure Binding where
  name : String
  type : ValueType
deriving DecidableEq

end StackFront
