import StackFront.Source.Token
import StackFront.Step
import StackFront.Table
import StackFront.Types.ValueType
import StackFront.Types.Operator
import StackFront.Worklist

/-!
# The struct hierarchy

All structs of a compilation, linked into a forest: a struct may extend one that was defined before
it, its parent. It has the fields of its own followed by those of its parent, and it starts out with
the methods its parent has at that moment.

A method that is registered later reaches the structs that exist already: it is entered for its
owner and for every struct below, in place of whatever method of that name each of them had. Static
methods belong to the struct they are registered on and to no other.

The links are kept at both ends, the parent in the child and the children in the parent. Walks along
either of them are bounded by the number of structs, since no struct is its own ancestor.

* `get_eq_ok_iff` says what a look-up answers; `result_define` gives the value of a definition
  without its log.
-/

namespace StackFront

/-- **A struct.** Its fields are its own, followed by every inherited one in the order of the
parent. -/
structure Struct where
  id : StructId
  name : String
  fields : List Field
  parent : Option StructId
  children : List StructId
  methods : Table String ProcId
  statics : Table String ProcId
  unpackable : Bool
  defaults : Table Nat Token

namespace Struct

/-- The position of the first field of a name; own fields come before inherited ones. -/
def fieldPosition? (s : Struct) (name : String) : Option Nat :=
  s.fields.findIdx? fun f => f.name == name

/-- The type of the first field of a name. -/
def typeOfField? (s : Struct) (name : String) : Option ValueType :=
  (s.fields.find? fun f => f.name == name).map (·.type)

/-- The types of the fields, in their order. -/
def layout (s : Struct) : List ValueType := s.fields.map (·.type)

/-- The token a field is initialised with when no value is given. -/
def default? (s : Struct) (index : Nat) : Option Token := s.defaults.get? index

/-- The method of a name, own or inherited. -/
def method? (s : Struct) (name : String) : Option ProcId := s.methods.get? name

/-- The static method of a name, which is the own one of the struct. -/
def static? (s : Struct) (name : String) : Option ProcId := s.statics.get? name

end Struct

/-- **What a struct is defined by.** The fields are its own, without those it inherits. -/
structure StructDef where
  name : String
  fields : List Field
  parent : Option StructId
  defaults : Table Nat Token
  unpackable : Bool

/-- **The structs of a compilation**, each at the position of its handle. -/
structure Hierarchy where
  structs : Array Struct

namespace Hierarchy

/-- No struct has been defined. -/
def empty : Hierarchy := ⟨#[]⟩

/-- How many structs have been defined; this is the index of the next handle. -/
def size (t : Hierarchy) : Nat := t.structs.size

/-- The struct of a handle. -/
def get (t : Hierarchy) (id : StructId) : Except Fault Struct := fetch t.structs id.index

/-- Changes the struct of a handle. A handle that was never given out changes nothing. -/
def update (t : Hierarchy) (id : StructId) (change : Struct → Struct) : Hierarchy :=
  ⟨t.structs.modify id.index change⟩

/-- A look-up answers with exactly the structs that were defined. -/
theorem get_eq_ok_iff {t : Hierarchy} {id : StructId} {s : Struct} :
    t.get id = .ok s ↔ t.structs[id.index]? = some s :=
  fetch_eq_ok_iff

/-! ### Definition -/

/-- What a new struct takes over from its parent: the fields and the methods. -/
def inherited (t : Hierarchy) : Option StructId → Except Fault (List Field × Table String ProcId)
  | none => .ok ([], ∅)
  | some parent => (t.get parent).map fun s => (s.fields, s.methods)

/-- The struct a definition makes, given what it inherits. -/
def build (t : Hierarchy) (d : StructDef) (inherited : List Field × Table String ProcId) :
    Struct where
  id := ⟨t.size⟩
  name := d.name
  fields := d.fields ++ inherited.1
  parent := d.parent
  children := []
  methods := inherited.2
  statics := ∅
  unpackable := d.unpackable
  defaults := d.defaults

/-- Appends a struct to the table and enters it with its parent. -/
def attach (t : Hierarchy) (s : Struct) : Hierarchy :=
  let grown : Hierarchy := ⟨t.structs.push s⟩
  match s.parent with
  | none => grown
  | some parent => grown.update parent fun p => { p with children := p.children ++ [s.id] }

/-- **Defines a struct.** Its parent must exist. -/
def define (t : Hierarchy) (d : StructDef) : Step (StructId × Hierarchy) := do
  let inherited ← t.inherited d.parent
  let s := t.build d inherited
  Step.note .debug .types
    s!"struct {s.name} ({s.fields.length} fields, parent {Text.optional StructId.label s.parent})"
  return (s.id, t.attach s)

/-- A definition fails only where its parent does not exist. -/
theorem result_define (t : Hierarchy) (d : StructDef) (f : Log.Filter) :
    ((t.define d).run f).result =
      (t.inherited d.parent).map fun i => ((t.build d i).id, t.attach (t.build d i)) := by
  unfold define
  rw [Step.result_bind, Step.result_monadLift]
  rcases t.inherited d.parent with e | i
  · rfl
  · simp [Except.map]

/-! ### Ancestry -/

/-- The parent of a struct, if there is such a struct and it has one. -/
def parent? (t : Hierarchy) (id : StructId) : Option StructId :=
  t.structs[id.index]?.bind (·.parent)

/-- The ancestors of a struct, nearest first, as far as `bound` of them. -/
def chain (t : Hierarchy) : (bound : Nat) → StructId → List StructId
  | 0, _ => []
  | bound + 1, id =>
    match t.parent? id with
    | none => []
    | some parent => parent :: t.chain bound parent

/-- **The ancestors of a struct**, nearest first, without the struct itself. -/
def ancestors (t : Hierarchy) (id : StructId) : Except Fault (List StructId) :=
  (t.get id).map fun _ => t.chain t.size id

/-- **Subtyping**: a struct is a subtype of itself and of each of its ancestors. That a handle is a
subtype of itself takes no look-up. -/
def isSubtype (t : Hierarchy) (a b : StructId) : Except Fault Bool :=
  if a = b then .ok true else (t.ancestors a).map fun above => above.contains b

/-! ### Methods -/

/-- Enters a method for one struct; its children come next, the youngest first. -/
def enterMethod (name : String) (proc : ProcId) (t : Hierarchy) (id : StructId) :
    Except Fault (Hierarchy × List StructId) :=
  (t.get id).map fun s =>
    (t.update id fun s => { s with methods := s.methods.insert name proc }, s.children.reverse)

/-- Enters a method for the structs of a work list and for all those below them. There is a visit
for each struct, and one to find that a handle is unknown. -/
def propagate (t : Hierarchy) (name : String) (proc : ProcId) (work : List StructId) :
    Except Fault (Hierarchy × List StructId) :=
  Worklist.run (enterMethod name proc) (t.size + 1) t work

/-- **Registers a method** on a struct and on every struct below it. -/
def registerMethod (t : Hierarchy) (owner : StructId) (name : String) (proc : ProcId) :
    Step Hierarchy := do
  let (t', _) ← t.propagate name proc [owner]
  Step.record .debug .types do
    let s ← t'.get owner
    return s!"method {name} on {s.name} ({proc.label})"
  return t'

/-- **Registers a static method** on a struct, and on no other. -/
def registerStatic (t : Hierarchy) (owner : StructId) (name : String) (proc : ProcId) :
    Step Hierarchy := do
  Step.record .debug .types do
    let s ← t.get owner
    return s!"static method {name} on {s.name} ({proc.label})"
  let _ ← t.get owner
  return t.update owner fun s => { s with statics := s.statics.insert name proc }

/-- The method an operator word calls on a struct. A word that is no operator takes no look-up. -/
def operatorMethod? (t : Hierarchy) (id : StructId) (word : String) :
    Except Fault (Option ProcId) :=
  match Operator.method? word with
  | none => .ok none
  | some name => (t.get id).map fun s => s.method? name

end Hierarchy

end StackFront
