import KernelIsa.Fault
import KernelIsa.Listing.Registers
import KernelIsa.Notice
import KernelIsa.Request
import KernelIsa.Text.Word

/-!
# Build/Services — what a build needs from outside

A build acts in some monad `m`.  Its `Host` keeps the files, shows notices and tells whether the
build was cancelled; its `Services` compile, disassemble and look into binaries.  A `Step` is an
action that may fail with a fault, or stop the whole program by an overflow.
-/

namespace KernelIsa

/-! ## Steps -/

/-- An action that an overflow may stop. -/
abbrev Checked (m : Type → Type) := ExceptT Overflow m

/-- An action that may fail. -/
abbrev Step (m : Type → Type) := ExceptT Fault (Checked m)

namespace Step

variable {m : Type → Type} [Monad m] {α : Type}

/-- An action that answers with a value or a fault, as a step. -/
def ask (action : m (Except Fault α)) : Step m α := ExceptT.mk (ExceptT.lift action)

/-- A value or a fault, as a step. -/
def ofExcept (result : Except Fault α) : Step m α := ExceptT.mk (pure result)

/-- A value or an overflow, as a step. -/
def ofChecked (result : Except Overflow α) : Step m α := ExceptT.lift (ExceptT.mk (pure result))

end Step

/-! ## The host -/

/-- The files of a host. -/
structure Files (m : Type → Type) where
  read : Path → m (Except FileError Bytes)
  /-- Makes a file with the given content, or replaces its content. -/
  write : Path → Bytes → m (Except FileError Unit)
  remove : Path → m (Except FileError Unit)
  isPresent : Path → m Bool

/-- The text of a file, or the fault of reading it. -/
def Files.readText {m : Type → Type} [Monad m] (files : Files m) (path : Path) :
    m (Except Fault Text) := do
  match ← files.read path with
  | .error error => return .error (.file path error)
  | .ok bytes => match Utf8.decode? bytes with
    | some text => return .ok text
    | none => return .error (.file path .notText)

/-- Writes a text, and gives the fault if that fails. -/
def Files.writeText {m : Type → Type} [Monad m] (files : Files m) (path : Path) (text : Text) :
    m (Except Fault Unit) := do
  match ← files.write path (Utf8.encode text) with
  | .error error => return .error (.file path error)
  | .ok _ => return .ok ()

/-- The surroundings of a build. -/
structure Host (m : Type → Type) where
  files : Files m
  tell : Notice → m Unit
  isCancelled : m Bool

/-! ## Services -/

/-- What a tool left when it ended. -/
structure ToolOutput where
  success : Bool
  status : Text
  stdout : Text
  stderr : Text
  deriving DecidableEq, Repr

/-- The output of a tool that went well; a failure becomes a fault with its error output. -/
def ToolOutput.check (output : ToolOutput) (tool : Text) : Except Fault ToolOutput :=
  if output.success then .ok output else .error (.toolFailed tool output.status output.stderr)

/-- What a node of a control-flow graph stands for. -/
inductive Granularity
  | block
  | instruction
  deriving DecidableEq, Repr

/-- The analysis of one listing into a report file. -/
structure Analyzer (m : Type → Type) where
  liveRegisters : (listing : Path) → (device : Text) → Registers.RegisterClass → (report : Path) →
    m (Except Fault Unit)
  graph : (listing : Path) → (device : Text) → Granularity → (report : Path) → m (Except Fault Unit)

/-- The tools that a build uses. -/
structure Services (m : Type → Type) where
  compile : (device : Text) → Options → (sources : List Path) → (output : Path) →
    m (Except Fault ToolOutput)
  /-- Writes the intermediate code of one source. -/
  compileIntermediate : (device : Text) → Options → (source : Path) → (output : Path) →
    m (Except Fault ToolOutput)
  /-- Disassembles a binary to its standard output. -/
  disassemble : (binary : Path) → (device : Text) → (lineNumbers : Bool) →
    m (Except Fault ToolOutput)
  kernelNames : (binary : Path) → m (Except Fault (List Text))
  codeSize : (binary : Path) → (kernel : Text) → m (Except Fault (Option Nat))
  /-- The notes of a binary. -/
  notes : (binary : Path) → m (Except Fault Text)
  analyzer : Option (Analyzer m)

end KernelIsa
