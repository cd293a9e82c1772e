import StackFront.Compilation.Session
import StackFront.Main
import StackFront.Proofs.Compilation.Operations
import StackFront.Proofs.Procedure.Reachability
import StackFront.Proofs.Types.Dispatch
import StackFront.Proofs.Compilation.Run
import StackFront.Proofs.Compilation.Frame
import StackFront.Proofs.Compilation.Usage
import StackFront.Proofs.Compilation.Detour
import StackFront.Proofs.Compilation.Naming
import StackFront.Proofs.Compilation.Definitions
import StackFront.Proofs.Compilation.Integrity
import StackFront.Proofs.Compilation.Refusal
import StackFront.Proofs.Compilation.Memory
import StackFront.Proofs.Compilation.Handles
import StackFront.Proofs.Compilation.Faults
import StackFront.Proofs.Compilation.Conditions
import StackFront.Proofs.Compilation.Ranges
import StackFront.Proofs.Block.Grammar
import StackFront.Proofs.Compilation.Lookahead
import StackFront.Proofs.Types.Subtyping
import StackFront.Proofs.Diagnostics.Reporting
import StackFront.Proofs.Compilation.Logging
import StackFront.Proofs.Compilation.Stability
import StackFront.Proofs.Types.Fields
import StackFront.Proofs.Procedure.Closure
import StackFront.Proofs.Procedure.Recording
import StackFront.Proofs.Names.Numerals
import StackFront.Proofs.Memory.Layout
import StackFront.Proofs.Memory.Padding
import StackFront.Proofs.Compilation.Registration
import StackFront.Proofs.Compilation.Bodies
import StackFront.Proofs.Types.Descent
import StackFront.Proofs.Compilation.Variables
import StackFront.Proofs.Diagnostics.Messages
import StackFront.Proofs.Source.Sharing
