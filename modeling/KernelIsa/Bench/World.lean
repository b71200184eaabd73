import KernelIsa.Artifact.Session
import KernelIsa.Bench.Disk
import KernelIsa.Build.Services

/-!
# Bench/World — a host in memory

A `World` is the state of a host for trying builds: its disk, what was told and printed, what was
called, and whether the build was cancelled.  `World.host` is the host whose actions change it.

A session may also be put together by hand, and then its counts may leave 64 bits (`Tally.check`).
-/

namespace KernelIsa

/-- A call of a service or of a program. -/
inductive Call
  | compile (device : Text) (options : Options) (sources : List Path) (output : Path)
    (wasPresent : Bool)
  | intermediate (device : Text) (source output : Path)
  | disassemble (binary : Path) (device : Text) (lineNumbers : Bool)
  | kernelNames (binary : Path)
  | codeSize (binary : Path) (kernel : Text)
  | notes (binary : Path)
  | liveRegisters (listing : Path) (device : Text) (kind : Registers.RegisterClass) (report : Path)
  | graph (listing : Path) (device : Text) (granularity : Granularity) (report : Path)
  | program (name : Text) (arguments : List Bytes)
  deriving DecidableEq, Repr

/-- The state of a host in memory. -/
structure World where
  disk : Disk := Disk.fresh
  notices : List Notice := []
  printed : List Text := []
  calls : List Call := []
  compilations : Nat := 0
  isCancelled : Bool := false

/-- Actions on a world. -/
abbrev Bench := StateM World

namespace World

/-- Replaces the disk if an operation on it succeeds. -/
def change (operation : Disk → Except FileError Disk) : Bench (Except FileError Unit) := do
  let world ← get
  match operation world.disk with
  | .error error => return .error error
  | .ok disk =>
    set { world with disk := disk }
    return .ok ()

/-- The files on the disk. -/
def files : Files Bench where
  read path := return (← get).disk.read path
  write path content := change fun disk => disk.write path content
  remove path := change fun disk => disk.remove path
  isPresent path := return (← get).disk.isPresent path

/-- Notes a call. -/
def record (call : Call) : Bench Unit :=
  modify fun world => { world with calls := world.calls ++ [call] }

/-- Shows a line on the standard output. -/
def print (line : Text) : Bench Unit :=
  modify fun world => { world with printed := world.printed ++ [line] }

/-- The host in memory. -/
def host : Host Bench where
  files := files
  tell notice := modify fun world => { world with notices := world.notices ++ [notice] }
  isCancelled := return (← get).isCancelled

/-- The world with nothing told, printed or called yet. -/
def cleared (world : World) : World := { world with notices := [], printed := [], calls := [] }

end World

/-! ## Counting by hand -/

namespace Tally

/-- The counts of a tally. -/
def counts (tally : Tally) : List Nat :=
  [tally.compiled, tally.failed, tally.split, tally.reduced, tally.removed]

/-- Reports a count that leaves 64 bits. -/
def check (tally : Tally) : Except Overflow Unit :=
  if tally.counts.all (· < Word.limit) then .ok () else .error .addition

end Tally

end KernelIsa
