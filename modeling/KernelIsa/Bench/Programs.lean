import KernelIsa.Bench.World
import KernelIsa.Tool.Launch

/-!
# Bench/Programs — stand-in programs in a world

A program named without a slash is searched for in one directory; any other is taken at its path.
Running one notes the call, writes its output file, and answers what its script says
(`Programs.launcher`).
-/

namespace KernelIsa.Programs

/-- The directory in which programs are searched for. -/
def directory : Text := "bin".toList

/-- The path at which a program is looked for. -/
def locate (program : Path) : Path :=
  if program.bytes.contains Path.slash then program
  else (Path.ofText directory).join program

/-- The argument behind the last `-o`. -/
def outputArgument? : List Bytes → Option Bytes
  | [] => none
  | argument :: rest => match outputArgument? rest with
    | some output => some output
    | none => if argument = Utf8.encode "-o".toList then rest.head? else none

/-- The path of the output file that the arguments give. -/
def target? (outlet : Outlet) (arguments : List Bytes) : Option Path :=
  (match outlet with
    | .behindFlag => outputArgument? arguments
    | .atEnd => arguments.getLast?).map Path.mk

/-- Runs a script; of its exit code the lowest byte is left. -/
def perform (script : Script) (arguments : List Bytes) : Bench Finished := do
  World.record (.program script.name arguments)
  match script.writes, target? script.outlet arguments with
  | some content, some path => let _ ← World.files.write path content
  | _, _ => pure ()
  let ending := match script.code with
    | some code => Ending.exit (code % 256)
    | none => Ending.signal 9
  return ⟨ending, script.stdout, script.stderr⟩

/-- The script at a path, or the error of launching what lies there. -/
def find (disk : Disk) (program : Path) : Except FileError Script :=
  if program.bytes.isEmpty then .error .missing
  else match disk.lookup (locate program) with
    | .error error => .error error
    | .ok (.program script) => if script.isExecutable then .ok script else .error .denied
    | .ok _ => .error .denied

/-- The number of bytes that an argument may have, with one more for its end. -/
def argumentLimit : Nat := 131072

/-- Launches a program of the world. -/
def launch (program : Path) (arguments : List Bytes) : Bench (Except FileError Finished) := do
  if program.bytes.contains 0 || arguments.any fun argument => argument.contains 0 then
    return .error .zeroArgument
  match find (← get).disk program with
  | .error error => return .error error
  | .ok script =>
    if arguments.any fun argument => argumentLimit ≤ argument.length then
      return .error .argumentTooLong
    return .ok (← perform script arguments)

/-- The launcher of the stand-in programs. -/
def launcher : Launcher Bench where
  launch := launch
  print := World.print

end KernelIsa.Programs
