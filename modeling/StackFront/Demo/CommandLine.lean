import StackFront.Demo.Listing

/-!
# The command line of the demonstration

The arguments are read from left to right. A switch may be given once, except the one for the log,
which counts; single-letter switches may be run together. The requests for help and for the version
take effect as soon as they are reached, whatever comes behind them, and anything that is none of
these ends the program as misused. After `--` nothing may follow.

`respond` is the whole of the demonstration as a value: what is printed, the exit code, and the log.
-/

namespace StackFront.Demo

/-- **What the command line asks for.** -/
structure Options where
  keepGoing : Bool
  noColor : Bool
  dump : Bool
  /-- How often more of the log was asked for. -/
  verbosity : Nat
deriving DecidableEq

/-- No switch has been given. -/
def Options.none : Options := ⟨false, false, false, 0⟩

/-- **What becomes of a command line.** -/
inductive Request where
  | build (options : Options)
  | help
  | version
  | misused
deriving DecidableEq

/-- Turns a switch on that may be given once. -/
def once (given : Bool) (options : Options) : Except Request Options :=
  if given then .error .misused else .ok options

/-- Reads a switch that is written as a word. Help and version end the reading. -/
def readWord (o : Options) : String → Except Request Options
  | "--keep-going" => once o.keepGoing { o with keepGoing := true }
  | "--no-color" => once o.noColor { o with noColor := true }
  | "--dump" => once o.dump { o with dump := true }
  | "--verbose" => .ok { o with verbosity := o.verbosity + 1 }
  | "--help" => .error .help
  | "--version" => .error .version
  | _ => .error .misused

/-- Reads a switch that is written as a letter. -/
def readLetter (o : Options) : Char → Except Request Options
  | 'v' => .ok { o with verbosity := o.verbosity + 1 }
  | 'h' => .error .help
  | 'V' => .error .version
  | _ => .error .misused

/-- Reads one argument: a long switch after two dashes, letters after one. -/
def readArgument (o : Options) (arg : String) : Except Request Options :=
  match arg.toList with
  | '-' :: '-' :: _ => readWord o arg
  | '-' :: c :: cs => (c :: cs).foldlM readLetter o
  | _ => .error .misused

/-- **Reads the arguments**, from left to right. -/
def readArguments (o : Options) : List String → Request
  | [] => .build o
  | "--" :: rest => if rest.isEmpty then .build o else .misused
  | arg :: rest =>
    match readArgument o arg with
    | .ok o => readArguments o rest
    | .error request => request

/-- The log that is wanted. Nothing beyond `trace` can be asked for. -/
def Options.filter (o : Options) : Log.Filter :=
  match o.verbosity with
  | 0 => .upTo .info
  | 1 => .upTo .debug
  | _ => .upTo .trace

/-- How the compilation of the demonstration is set up. -/
def Options.settings (o : Options) : Settings where
  mode := if o.keepGoing then .collect else .fatal
  color := !o.noColor
  instructionCapacity := Settings.default.instructionCapacity
  syscalls := Settings.default.syscalls
  alignment := Settings.default.alignment

/-! ### Running -/

/-- What is printed at a request for help. -/
def helpText : String :=
  String.join <| List.map (· ++ "\n")
    ["Builds a small hard-coded program through the compilation context and prints "
        ++ "what a backend would receive",
      "",
      "Usage: stackc [OPTIONS]",
      "",
      "Options:",
      "      --keep-going  Keep going after an error instead of exiting",
      "      --no-color    ",
      "      --dump        Print every emitted instruction",
      "  -v, --verbose...  Log level: -v for debug, -vv for trace",
      "  -h, --help        Print help",
      "  -V, --version     Print version"]

/-- What is printed at a request for the version. -/
def versionText : String := "stackc 0.1.0\n"

/-- **What the demonstration leaves behind**: the exit code, what it prints, and the lines of its
diagnostics. -/
structure Answer where
  exit : Nat
  output : String
  diagnostics : List String
deriving DecidableEq

/-- The answer of a build that has come to its end, whether or not everything was accepted. -/
def conclude (dump : Bool) (c : Compilation Instruction) : Step Answer := do
  match ← c.handOver with
  | .error e => return ⟨1, "", c.reporter.sink.received ++ [e.text ++ "\n"]⟩
  | .ok program =>
    return ⟨if c.reporter.errors.isEmpty then 0 else 1, listing dump program,
      c.reporter.sink.received⟩

/-- Builds the sample program, and hands it over unless the process has ended before. -/
def build (o : Options) : Step Answer := do
  let c ← Compilation.create o.settings (.create o.settings.mode o.settings.color)
  match ← sample.run.run c with
  | (.error .ended, c) => return ⟨1, "", c.reporter.sink.received⟩
  | (_, c) => conclude o.dump c

/-- **The demonstration**: the answer to a request, with the log that was asked for. -/
def respond : Request → Outcome Answer
  | .build o => (build o).run o.filter
  | .help => ⟨[], .ok ⟨0, helpText, []⟩⟩
  | .version => ⟨[], .ok ⟨0, versionText, []⟩⟩
  | .misused => ⟨[], .ok ⟨2, "", ["Usage: stackc [OPTIONS]\n"]⟩⟩

end StackFront.Demo
