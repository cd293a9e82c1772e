import StackFront.Diagnostics.Basic
import StackFront.Step

/-!
# Reporting errors

The reporter writes each error as a line to a sink and records it, so that the compilation can go on
and the errors can be counted at its end. In the mode `fatal` a report ends the process instead:
the line is written, nothing is recorded, and there is no next step. Both ends are values, told
apart by `Aftermath`.

A line may be coloured; the colour is put around its beginning and changes no character of it. A
sink may be broken: lines are offered to it as to any other, and it takes none of them, so that they
go to the log. Recording and ending do not depend on that.
-/

namespace StackFront

/-- **What a report does** once the error has been written. -/
inductive ReportMode where
  /-- The process ends. -/
  | fatal
  /-- The error is recorded. -/
  | collect
deriving DecidableEq

/-- The name of the mode in inspected values. -/
def ReportMode.label : ReportMode → String
  | .fatal => "Fatal"
  | .collect => "Collect"

/-- **Where the lines go**: whether the sink is broken, and the lines it has been offered so far. -/
structure Sink where
  broken : Bool
  offered : List String
deriving DecidableEq

/-- The lines that the sink has taken. A sink that works takes what it is offered, a broken one
nothing. -/
def Sink.received (s : Sink) : List String := if s.broken then [] else s.offered

/-- Offers a line to the sink, whether or not it takes it. -/
def Sink.offer (s : Sink) (line : String) : Sink := { s with offered := s.offered ++ [line] }

/-- **Whether the process goes on** after an operation, with the state it leaves. -/
inductive Aftermath (σ : Type) where
  | goesOn (state : σ)
  | ends (state : σ)

/-- The state that an operation leaves, whether or not the process goes on with it. -/
def Aftermath.state {σ : Type} : Aftermath σ → σ
  | goesOn s => s
  | ends s => s

/-- The same end with the state replaced by one that is read off it. -/
def Aftermath.map {σ τ : Type} (g : σ → τ) : Aftermath σ → Aftermath τ
  | goesOn s => goesOn (g s)
  | ends s => ends (g s)

/-- **The error channel of a compilation.** -/
structure Reporter where
  mode : ReportMode
  color : Bool
  sink : Sink
  errors : List Diagnostic
deriving DecidableEq

namespace Reporter

/-- The escape sequence that begins bold red text. -/
def colorOn : String := "\x1b[1;31m"

/-- The escape sequence that ends all colour. -/
def colorOff : String := "\x1b[0m"

/-- A reporter that has reported nothing, with a sink that works. -/
def create (mode : ReportMode) (color : Bool) : Reporter := ⟨mode, color, ⟨false, []⟩, []⟩

/-- **The line of an error.** A colour is put around the words before the sentence, up to the colon.
-/
def line (color : Bool) (e : Diagnostic) : String :=
  if color then
    s!"{colorOn}Error {e.location.text}:{colorOff} {e.cause.message}\n"
  else
    s!"{e.text}\n"

/-- Offers the line of an error to the sink. If the sink is broken, the error goes to the log. -/
def write (r : Reporter) (e : Diagnostic) : Step Reporter := do
  if r.sink.broken then
    Step.note .error .diagnostics e.text
  return { r with sink := r.sink.offer (line r.color e) }

/-- **Reports an error without ending the process**, whatever the mode. -/
def record (r : Reporter) (e : Diagnostic) : Step Reporter := do
  let r ← r.write e
  Step.note .warn .diagnostics e.text
  return { r with errors := r.errors ++ [e] }

/-- **Reports an error as the mode says.** In the mode `fatal` it is written and not recorded, and
the process ends. -/
def report (r : Reporter) (e : Diagnostic) : Step (Aftermath Reporter) :=
  match r.mode with
  | .collect => .goesOn <$> r.record e
  | .fatal => do
    let r ← r.write e
    Step.note .error .diagnostics e.text
    return .ends r

/-- Switches what a report does. Errors that have been recorded stay. -/
def withMode (r : Reporter) (mode : ReportMode) : Reporter := { r with mode }

/-- How many errors have been recorded and not handed over. -/
def count (r : Reporter) : Nat := r.errors.length

/-- Hands the recorded errors over and forgets them. -/
def drain (r : Reporter) : List Diagnostic × Reporter :=
  (r.errors, { r with errors := [] })

/-- The inspected form; the sink cannot be looked into. -/
def inspect (r : Reporter) : String :=
  Text.someFields "DiagnosticReporter"
    [("mode", r.mode.label), ("color", toString r.color),
      ("errors", Text.listed (r.errors.map Diagnostic.inspect))]

end Reporter

end StackFront
