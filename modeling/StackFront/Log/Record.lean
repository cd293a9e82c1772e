/-!
# Log records

The compiler narrates what it does in log records: a severity, the part of the compiler that
speaks, and a line of text. A reader chooses how much of that he wants through a `Filter`, which
admits the records up to one severity, or none at all.

The severities are ordered from `error`, always wanted first, down to `trace`.
-/

namespace StackFront.Log

/-- The severity of a record, most severe first. -/
inductive Level where
  | error | warn | info | debug | trace
deriving DecidableEq

/-- The position of a severity, counted from the most severe. -/
def Level.rank : Level → Nat
  | .error => 0
  | .warn => 1
  | .info => 2
  | .debug => 3
  | .trace => 4

/-- The severity as it is printed. -/
def Level.word : Level → String
  | .error => "ERROR"
  | .warn => "WARN"
  | .info => "INFO"
  | .debug => "DEBUG"
  | .trace => "TRACE"

/-- **The part of the compiler that speaks.** -/
inductive Area where
  | program | compilation | blocks | memory | types | procedures | names | diagnostics
deriving DecidableEq

/-- The name that the records of an area are filed under. -/
def Area.path : Area → String
  | .program => "stackc"
  | .compilation => "stackc::context"
  | .blocks => "stackc::blocks"
  | .memory => "stackc::memory"
  | .types => "stackc::types"
  | .procedures => "stackc::procedure"
  | .names => "stackc::namespace"
  | .diagnostics => "stackc::diagnostics"

/-- **A log record.** -/
structure Record where
  level : Level
  area : Area
  message : String
deriving DecidableEq

/-- How much of the log is wanted: everything up to a severity, or nothing. -/
inductive Filter where
  | off
  | upTo (level : Level)
deriving DecidableEq

/-- Whether records of a severity are wanted. -/
def Filter.admits : Filter → Level → Bool
  | .off, _ => false
  | .upTo max, l => l.rank ≤ max.rank

@[simp] theorem Filter.off_admits (l : Level) : Filter.off.admits l = false := rfl

@[simp] theorem Filter.trace_admits (l : Level) : (Filter.upTo .trace).admits l = true := by
  cases l <;> rfl

end StackFront.Log
