import KernelIsa.Command.Line

/-!
# Main — the program

The outer layer: files, notices and lines of the real system, handed to `Command.execute`.  This
build of the program has no means to start other programs; every launch answers that.
-/

namespace KernelIsa.Program

/-- The error number of an error of the system. -/
def fileError : IO.Error → FileError
  | .noFileOrDirectory _ code _ => .system code.toInt32
  | .permissionDenied _ code _ => .system code.toInt32
  | .inappropriateType _ code _ => .system code.toInt32
  | .invalidArgument _ code _ => .system code.toInt32
  | .resourceExhausted _ code _ => .system code.toInt32
  | .otherError code _ => .system code.toInt32
  | _ => .system 5

/-- Runs an action on the file at a path. -/
def onFile {α : Type} (path : Path) (action : String → IO α) : IO (Except FileError α) := do
  match Utf8.decode? path.bytes with
  | none => return .error .missing
  | some name =>
    try return .ok (← action (String.ofList name))
    catch error => return .error (fileError error)

/-- The files of the system. -/
def files : Files IO where
  read path := onFile path fun name => do return (← IO.FS.readBinFile name).toList
  write path content :=
    onFile path fun name => IO.FS.writeBinFile name (ByteArray.mk content.toArray)
  remove path := onFile path fun name => IO.FS.removeFile name
  isPresent path := do
    match ← onFile path fun name => IO.FS.Handle.mk name IO.FS.Mode.read with
    | .ok _ => return true
    | .error error => return error = .denied

/-- The standard output, and the answer to every launch. -/
def launcher : Launcher IO where
  launch _ _ := return .error (.system 38)
  print line := IO.println (String.ofList line)

/-- The user at the terminal; a build is never cancelled there. -/
def host : Host IO where
  files := files
  tell notice := IO.eprint (String.ofList notice.written)
  isCancelled := return false

/-- The terminal of a run. -/
def terminal : IO (Command.Terminal IO) := do
  let temporary := (← IO.getEnv "TMPDIR").getD "/tmp"
  let program := Path.ofText (← IO.appPath).toString.toList
  return {
    host := host
    launcher := launcher
    temporaryDirectory := Path.ofText temporary.toList
    tag := decimal (← IO.monoNanosNow)
    supplement := program.parent?.map fun directory =>
      directory.join (Path.ofText "additional-targets".toList) }

end KernelIsa.Program

/-- Runs the program with the arguments of the command line. -/
def main (arguments : List String) : IO UInt32 := do
  let terminal ← KernelIsa.Program.terminal
  let arguments := arguments.map fun argument => KernelIsa.Utf8.encode argument.toList
  match ← (KernelIsa.Command.execute terminal arguments).run with
  | .ok code => return code.toUInt32
  | .error _ =>
    IO.eprintln "attempt to add with overflow"
    return 101
