/-!
# Operators on structs

An operator word applied to a struct is a call of a method with a name of its own, `__add__` for `+`
and so on. The methods that stand for operators take two operands of one type; indexing may be
overloaded as well, but with an argument of any type.
-/

namespace StackFront.Operator

/-- **The operator words, with the methods they call.** -/
def methods : List (String × String) :=
  [("+", "__add__"), ("-", "__sub__"), ("*", "__mul__"), (">", "__gt__"), ("<", "__lt__"),
    (">=", "__ge__"), ("<=", "__le__"), ("==", "__eq__"), ("!=", "__ne__")]

/-- The methods that may be overloaded with an argument of another type than the receiver's. -/
def mixedMethods : List String := ["__index__", "__index_ptr__"]

/-- The method that an operator word calls, if the word is one. -/
def method? (word : String) : Option String := methods.lookup word

/-- Whether a method wants both operands to be of the receiver's type. -/
def isHomogeneous (method : String) : Bool := methods.any fun p => p.2 == method

/-- Whether structs can have a method of this name that stands for an operator or for indexing. -/
def isOverloadable (method : String) : Bool :=
  isHomogeneous method || mixedMethods.contains method

theorem isHomogeneous_of_method? {word method : String} (h : method? word = some method) :
    isHomogeneous method = true := by
  obtain ⟨l, m, hl, -⟩ := List.lookup_eq_some_iff.mp h
  exact List.any_eq_true.mpr ⟨(word, method), hl ▸ by simp, by simp⟩

end StackFront.Operator
