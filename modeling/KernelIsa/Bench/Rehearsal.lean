import KernelIsa.Bench.World

/-!
# Bench/Rehearsal — services that answer from a list

A `Rehearsal` says for each device or source what the services answer: a failure, a failed tool, or
success.  A compiled binary is the text `code object for` with the device's name behind it, so that
the other services know which device a binary is for.
-/

namespace KernelIsa

/-- Answers by name, and one for all names that are not listed; a listed name may have none. -/
structure Answers (α : Type) where
  byName : List (Text × Option α) := []
  other : Option α := none

/-- The answer for a name. -/
def Answers.for? {α : Type} (answers : Answers α) (name : Text) : Option α :=
  ((answers.byName.find? fun e => e.1 = name).map Prod.snd).getD answers.other

/-- How a service fails. -/
inductive Failure
  | launch
  | file (path : Path)
  | codeObject (reason : Text)
  deriving DecidableEq, Repr

/-- The fault of a failing service. -/
def Failure.fault (tool : Text) : Failure → Fault
  | .launch => .launch tool .missing
  | .file path => .file path .denied
  | .codeObject reason => .codeObject (Path.ofText tool) reason

/-- How a tool acts. -/
structure ToolAct where
  failure : Option Failure := none
  isFailed : Bool := false
  status : Option Text := none
  stdout : Text := []
  stderr : Text := []
  leavesOutput : Bool := true

/-- The answers of all services. -/
structure Rehearsal where
  compile : Answers ToolAct := {}
  intermediate : Answers ToolAct := {}
  disassemble : Answers ToolAct := {}
  kernels : Answers (Except Failure (List Text)) := {}
  sizes : Answers (List (Text × Except Failure Nat)) := {}
  notes : Answers Failure := {}
  analyzer : Option (Answers Failure) := none
  /-- The number of compilations after which the build is cancelled. -/
  cancelAfter : Option Nat := none
  /-- What the name of each service starts with in faults. -/
  opening : Text := "rehearsed-".toList

namespace Rehearsal

/-- The name of a service in faults. -/
def nameOf (rehearsal : Rehearsal) (service : String) : Text := rehearsal.opening ++ service.toList

/-- What starts a compiled binary. -/
def binaryOpening : Text := "code object for ".toList

/-- Writes a file as part of a tool's work. -/
def leave (output : Path) (content : Text) : Bench (Except Fault Unit) :=
  World.files.writeText output content

/-- Lets a tool act; it leaves `content` at `output` if it has an output. -/
def act (tool : Text) (script : ToolAct) (output : Option (Path × Text)) :
    Bench (Except Fault ToolOutput) :=
  match script.failure with
  | some failure => return .error (failure.fault tool)
  | none =>
    if script.isFailed then
      return .ok ⟨false, script.status.getD "exit status: 1".toList, script.stdout, script.stderr⟩
    else do
      let left ← match output with
        | some (path, content) => if script.leavesOutput then leave path content else pure (.ok ())
        | none => pure (.ok ())
      return left.map fun _ =>
        ⟨true, "exit status: 0".toList, script.stdout, script.stderr⟩

/-- Counts a compilation, and cancels the build after the one that was set. -/
def countCompilation (rehearsal : Rehearsal) : Bench Unit :=
  modify fun world =>
    let count := world.compilations + 1
    { world with
      compilations := count
      isCancelled := world.isCancelled || rehearsal.cancelAfter = some count }

/-- The device that a binary is for. -/
def deviceOf (binary : Path) : Bench (Except Fault Text) := do
  return (← World.files.readText binary).map fun text =>
    (Text.dropLead? binaryOpening text).getD text

/-- The code size of a kernel among the given ones. -/
def sizeIn (rehearsal : Rehearsal) (sizes : List (Text × Except Failure Nat)) (kernel : Text) :
    Except Fault (Option Nat) :=
  match (sizes.find? fun e => e.1 = kernel).map Prod.snd with
  | none => .ok none
  | some (.ok size) => .ok (some size)
  | some (.error failure) => .error (failure.fault (rehearsal.nameOf "sizes"))

/-- The name of a class of registers in reports. -/
def className : Registers.RegisterClass → Text
  | .vector => "Vgpr".toList
  | .scalar => "Sgpr".toList

/-- The name of a granularity in graphs. -/
def granularityName : Granularity → Text
  | .block => "Block".toList
  | .instruction => "Instruction".toList

/-- The analyzer whose failures are listed. -/
def analyzerOf (rehearsal : Rehearsal) (failures : Answers Failure) : Analyzer Bench where
  liveRegisters listing device kind report := do
    World.record (.liveRegisters listing device kind report)
    match failures.for? device with
    | some failure => return .error (failure.fault (rehearsal.nameOf "analyzer"))
    | none => match ← World.files.readText listing with
      | .error fault => return .error fault
      | .ok text =>
        leave report (className kind ++ ' ' :: decimal (Text.byteLength text) ++ ['\n'])
  graph listing device granularity report := do
    World.record (.graph listing device granularity report)
    match failures.for? device with
    | some failure => return .error (failure.fault (rehearsal.nameOf "analyzer"))
    | none =>
      leave report
        ("digraph ".toList ++ granularityName granularity ++ [' ', '\x7b', '\x7d', '\n'])

/-- The services of a rehearsal. -/
def services (rehearsal : Rehearsal) : Services Bench where
  compile device options sources output := do
    let wasPresent ← World.files.isPresent output
    World.record (.compile device options sources output wasPresent)
    rehearsal.countCompilation
    act (rehearsal.nameOf "compiler") ((rehearsal.compile.for? device).getD {})
      (some (output, binaryOpening ++ device))
  compileIntermediate device _ source output := do
    World.record (.intermediate device source output)
    act (rehearsal.nameOf "compiler") ((rehearsal.intermediate.for? source.display).getD {})
      (some (output, "; IR of ".toList ++ source.display ++ " for ".toList ++ device))
  disassemble binary device lineNumbers := do
    World.record (.disassemble binary device lineNumbers)
    act (rehearsal.nameOf "disassembler") ((rehearsal.disassemble.for? device).getD {}) none
  kernelNames binary := do
    World.record (.kernelNames binary)
    match ← deviceOf binary with
    | .error fault => return .error fault
    | .ok device => match rehearsal.kernels.for? device with
      | none => return .ok []
      | some (.ok names) => return .ok names
      | some (.error failure) => return .error (failure.fault (rehearsal.nameOf "kernels"))
  codeSize binary kernel := do
    World.record (.codeSize binary kernel)
    return (← deviceOf binary).bind fun device =>
      rehearsal.sizeIn ((rehearsal.sizes.for? device).getD []) kernel
  notes binary := do
    World.record (.notes binary)
    return (← deviceOf binary).bind fun device => match rehearsal.notes.for? device with
      | some failure => .error (failure.fault (rehearsal.nameOf "metadata"))
      | none => .ok ("notes of ".toList ++ device ++ ['\n'])
  analyzer := rehearsal.analyzer.map rehearsal.analyzerOf

end Rehearsal

end KernelIsa
