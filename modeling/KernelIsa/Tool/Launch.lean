import KernelIsa.Build.Services

/-!
# Tool/Launch — running a program to its end

A `Launcher` starts programs and shows lines on the standard output.  `Launcher.run` runs one
program, shows its command line first if that is wanted, and reads what it wrote as text.
-/

namespace KernelIsa

/-- How a program ended. -/
inductive Ending
  | exit (code : Nat)
  | signal (number : Nat)
  deriving DecidableEq, Repr

namespace Ending

/-- Whether a program ended well. -/
def isSuccess (ending : Ending) : Bool := ending = .exit 0

/-- The name of a signal. -/
def signalName? : Nat → Option String
  | 1 => some "SIGHUP"
  | 2 => some "SIGINT"
  | 3 => some "SIGQUIT"
  | 4 => some "SIGILL"
  | 5 => some "SIGTRAP"
  | 6 => some "SIGABRT"
  | 7 => some "SIGBUS"
  | 8 => some "SIGFPE"
  | 9 => some "SIGKILL"
  | 11 => some "SIGSEGV"
  | 13 => some "SIGPIPE"
  | 14 => some "SIGALRM"
  | 15 => some "SIGTERM"
  | _ => none

/-- The wording of an ending. -/
def status : Ending → Text
  | .exit code => "exit status: ".toList ++ decimal code
  | .signal number => "signal: ".toList ++ decimal number ++ match signalName? number with
    | some name => " (".toList ++ name.toList ++ [')']
    | none => []

end Ending

/-- What a program left behind. -/
structure Finished where
  ending : Ending
  stdout : Bytes
  stderr : Bytes

/-- The output of a finished program, read as text. -/
def Finished.output (finished : Finished) : ToolOutput where
  success := finished.ending.isSuccess
  status := finished.ending.status
  stdout := Utf8.decodeLossy finished.stdout
  stderr := Utf8.decodeLossy finished.stderr

/-- The means to run programs. -/
structure Launcher (m : Type → Type) where
  /-- Runs a program to its end. -/
  launch : (program : Path) → (arguments : List Bytes) → m (Except FileError Finished)
  /-- Shows a line on the standard output. -/
  print : Text → m Unit

namespace Launcher

variable {m : Type → Type} [Monad m]

/-- A command line as it is shown. -/
def commandLine (program : Path) (arguments : List Bytes) : Text :=
  program.display ++ arguments.flatMap fun argument => ' ' :: Utf8.decodeLossy argument

/-- Runs a program, after its command line was shown if `echo` asks for it. -/
def run (launcher : Launcher m) (echo : Bool) (program : Path) (arguments : List Bytes) :
    m (Except Fault ToolOutput) := do
  if echo then launcher.print (commandLine program arguments)
  match ← launcher.launch program arguments with
  | .error error => return .error (.launch program.display error)
  | .ok finished => return .ok finished.output

end Launcher

end KernelIsa
