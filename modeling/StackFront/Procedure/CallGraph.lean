import StackFront.Procedure.Basic

/-!
# The call graph

Which procedures a program needs: those its top-level code refers to, those that they call, and so
on. The closure of a list of roots under recorded calls is found with a work list; a procedure is
put on it when it is met for the first time, so that cycles do no harm.

A recorded callee need not exist. One that is met is looked up when its turn comes, which is a
fault.
-/

namespace StackFront.Procedures

/-- Procedures met so far, with the work list of those to be visited. Adding one that has been met
before changes nothing. -/
def meet (found : List ProcId × List ProcId) (id : ProcId) : List ProcId × List ProcId :=
  if id ∈ found.1 then found else (id :: found.1, id :: found.2)

/-- Visits a procedure: the callees met for the first time come next, the last one first. -/
def visit (ps : Procedures) (found : List ProcId) (id : ProcId) :
    Except Fault (List ProcId × List ProcId) :=
  (ps.get id).map fun p => p.calls.foldl meet (found, [])

/-- Follows calls until no procedure is left to be visited. There is a visit for each procedure, and
one to find that a handle is unknown. -/
def follow (ps : Procedures) (found work : List ProcId) :
    Except Fault (List ProcId × List ProcId) :=
  Worklist.run ps.visit (ps.size + 1) found work

/-- **The closure of a list of roots**: the roots, what they call, and so on. -/
def closure (ps : Procedures) (roots : List ProcId) : Except Fault (List ProcId) :=
  let (found, work) := roots.foldl meet ([], [])
  (ps.follow found work).map Prod.fst

/-- **What a procedure leads to** by at least one call. The procedure itself is among them only if
it calls itself, be it through others. -/
def reachable (ps : Procedures) (id : ProcId) : Except Fault (List ProcId) := do
  ps.closure (← ps.get id).calls

end StackFront.Procedures
