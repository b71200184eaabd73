import KernelIsa.CodeObject.Elf
import KernelIsa.Tool.Clang

/-!
# Tool/Suite — the services of a build, from real programs

`CodeObject.kernelNames` and `CodeObject.codeSize` read a binary as a code object and look at its
symbols.  An analyzer is a program that is called with a command, the device, a listing, and the
file for its report; it has to leave a report (`Analyzer.analyze`).  `Clang.services` puts a clang
installation, the reading of code objects, and an analyzer if there is one, together.
-/

/-! ## Reading code objects -/

namespace KernelIsa.CodeObject

/-- The symbols in the bytes of a binary, or the fault that it has none to read. -/
def symbolsIn (path : Path) (bytes : Bytes) : Except Fault (List Symbol) :=
  match Elf.symbols bytes with
  | .ok symbols => .ok symbols
  | .error defect => .error (.codeObject path defect.message.toList)

variable {m : Type → Type} [Monad m]

/-- The symbols of a binary. -/
def symbols (files : Files m) (binary : Path) : m (Except Fault (List Symbol)) := do
  match ← files.read binary with
  | .error error => return .error (.file binary error)
  | .ok bytes => return symbolsIn binary bytes

/-- The names of a binary's kernels. -/
def kernelNames (files : Files m) (binary : Path) : m (Except Fault (List Text)) := do
  return (← symbols files binary).map Symbol.kernelNames

/-- The code size of a kernel in a binary. -/
def codeSize (files : Files m) (binary : Path) (kernel : Text) :
    m (Except Fault (Option Nat)) := do
  return (← symbols files binary).map fun symbols => Symbol.codeSize? symbols kernel

end KernelIsa.CodeObject

/-! ## Another program as analyzer -/

namespace KernelIsa.Analyzer

/-- The command for live registers of a class. -/
def liveCommand : Registers.RegisterClass → Text
  | .vector => "analyse-liveness".toList
  | .scalar => "analyse-liveness-sgpr".toList

/-- The command for a control-flow graph. -/
def graphCommand : Granularity → Text
  | .block => "cfg".toList
  | .instruction => "cfg-per-inst".toList

/-- The arguments of an analysis. -/
def arguments (command device : Text) (listing report : Path) : List Bytes :=
  [Utf8.encode command, Utf8.encode "--arch".toList, Utf8.encode device, listing.bytes,
    report.bytes]

variable {m : Type → Type} [Monad m]

/-- Runs an analysis and makes sure that a report is there. -/
def analyze (launcher : Launcher m) (files : Files m) (echo : Bool) (program : Path)
    (command device : Text) (listing report : Path) : m (Except Fault Unit) := do
  let result ← launcher.run echo program (arguments command device listing report)
  match result.bind fun output => output.check program.display with
  | .error fault => return .error fault
  | .ok _ =>
    if ← files.isPresent report then return .ok ()
    else return .error (.noOutput program.display report)

/-- The analyzer that runs a program. -/
def ofProgram (launcher : Launcher m) (files : Files m) (echo : Bool) (program : Path) :
    Analyzer m where
  liveRegisters listing device kind report :=
    analyze launcher files echo program (liveCommand kind) device listing report
  graph listing device granularity report :=
    analyze launcher files echo program (graphCommand granularity) device listing report

end KernelIsa.Analyzer

/-! ## All services -/

namespace KernelIsa.Clang

variable {m : Type → Type} [Monad m]

/-- The services that the tools of a clang installation and an analyzer give. -/
def services (clang : Clang) (launcher : Launcher m) (files : Files m) (analyzer : Option Path) :
    Services m where
  compile device options sources output :=
    clang.run launcher compiler (clang.compileArguments device options sources output)
  compileIntermediate device options source output :=
    clang.run launcher compiler (clang.intermediateArguments device options source output)
  disassemble binary device lineNumbers :=
    clang.run launcher disassembler (disassembleArguments binary device lineNumbers)
  kernelNames binary := CodeObject.kernelNames files binary
  codeSize binary kernel := CodeObject.codeSize files binary kernel
  notes binary := clang.notes launcher binary
  analyzer := analyzer.map fun program => Analyzer.ofProgram launcher files clang.echo program

end KernelIsa.Clang
