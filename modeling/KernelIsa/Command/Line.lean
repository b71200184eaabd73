import KernelIsa.Build.Run
import KernelIsa.Command.Arguments
import KernelIsa.Tool.Suite

/-!
# Command/Line — the command line

`Command.perform` does what the settings ask for: it shows the compiler's version or the targets, or
runs a build.  `Command.execute` reads the arguments first and answers with the exit code.
-/

namespace KernelIsa.Command

/-- What the command line works with. -/
structure Terminal (m : Type → Type) where
  host : Host m
  launcher : Launcher m
  /-- The directory for temporary files, unless another one is given. -/
  temporaryDirectory : Path
  /-- The tag in the names of temporary files. -/
  tag : Text
  /-- The file of further devices, unless another one is given. -/
  supplement : Option Path

/-- The name and the version of the program. -/
def versionLine : Text := "isaforge 0.1.0".toList

/-- The lines that tell how the program is called. -/
def usage : List Text :=
  ["Build OpenCL kernels for GPU targets and analyze their ISA".toList, [],
    "Usage: isaforge [OPTIONS] [SOURCES]...".toList]

variable {m : Type → Type} [Monad m]

/-- Shows lines on the standard output. -/
def printAll (terminal : Terminal m) : List Text → m Unit
  | [] => return
  | line :: rest => do
    terminal.launcher.print line
    printAll terminal rest

/-- Reads a file of further devices; a file that is missing lists none. -/
def readSupplement (files : Files m) (path : Path) : m (Except Fault Supplement) := do
  match ← files.readText path with
  | .ok text => return .ok (Supplement.ofText text)
  | .error fault =>
    if fault = .file path .missing then return .ok Supplement.empty else return .error fault

/-- The resolver with the further devices of the settings or of the terminal. -/
def resolver (terminal : Terminal m) (settings : Settings) : Step m Resolver := do
  match settings.supplement.or terminal.supplement with
  | some path =>
    return Resolver.builtin (← Step.ask (readSupplement terminal.host.files path))
  | none => return Resolver.builtin Supplement.empty

/-- The list of targets as it is shown. -/
def targetLines (resolver : Resolver) : List Text :=
  let item := fun (target : Text) => ' ' :: ' ' :: target
  let further := resolver.supplement.devices
  "Supported targets:".toList :: resolver.table.supported.map item
    ++ if further.isEmpty then [] else
      ("Additional targets (unverified, compilation and analysis are not guaranteed):".toList
        :: further.map item)

/-- The builder that the settings ask for. -/
def builder (terminal : Terminal m) (settings : Settings) : Builder m where
  host := terminal.host
  services :=
    settings.clang.services terminal.launcher terminal.host.files settings.analyzer
  compilerNames := CompilerNames.builtin
  workspace := ⟨settings.temporaryDirectory.getD terminal.temporaryDirectory, terminal.tag⟩

/-- Does what the settings ask for, and answers whether it went well. -/
def perform (terminal : Terminal m) (settings : Settings) : Step m Bool := do
  if settings.compilerVersion then
    let version ← Step.ask (settings.clang.version terminal.launcher)
    terminal.launcher.print version
    return true
  let resolver ← resolver terminal settings
  if settings.listTargets then
    (printAll terminal (targetLines resolver) : m Unit)
    return true
  let report ← Run.run (builder terminal settings) resolver settings.request
  return !report.isFailure

/-- Runs the program with some arguments and answers with its exit code. -/
def execute (terminal : Terminal m) (arguments : List Bytes) : Checked m Nat := do
  match read arguments with
  | .error .version =>
    terminal.launcher.print versionLine
    return 0
  | .error .help =>
    (printAll terminal usage : m Unit)
    return 0
  | .error .refused => return 2
  | .ok settings => match ← (perform terminal settings).run with
    | .ok true => return 0
    | .ok false => return 1
    | .error fault =>
      terminal.host.tell (.error fault.message)
      return 1

end KernelIsa.Command
