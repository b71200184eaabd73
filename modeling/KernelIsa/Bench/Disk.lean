import KernelIsa.Collection.Pieces
import KernelIsa.FileError

/-!
# Bench/Disk — files in memory

A `Disk` has files, directories, programs and devices at locations below one root, and one of its
directories is the working directory.  A path is walked segment by segment (`walk`), and every
segment but the last has to lead to a directory; `read`, `write`, `remove` and `isPresent` answer
with the errors that a Unix system gives.
-/

namespace KernelIsa

/-- Where a stand-in program finds the path of its output file among its arguments. -/
inductive Outlet
  /-- Behind the last `-o`. -/
  | behindFlag
  /-- At the end. -/
  | atEnd
  deriving DecidableEq, Repr

/-- What a stand-in program does when it is run. -/
structure Script where
  name : Text
  outlet : Outlet := .behindFlag
  isExecutable : Bool := true
  stdout : Bytes := []
  stderr : Bytes := []
  /-- The content of the output file, if the program writes one. -/
  writes : Option Bytes := none
  /-- The exit code, or none for a program that is killed. -/
  code : Option Nat := some 0
  deriving DecidableEq, Repr

/-- What lies at a location. -/
inductive Node
  | file (content : Bytes)
  | directory
  | program (script : Script)
  /-- What reads as empty and keeps nothing; a full one refuses what is written. -/
  | device (isFull : Bool)
  deriving DecidableEq, Repr

/-- The names on the way from the root. -/
abbrev Location := List Bytes

/-- The nodes below one root; the root itself is a directory. -/
structure Disk where
  nodes : List (Location × Node) := []
  deriving DecidableEq, Repr

namespace Disk

/-- The node at a location. -/
def node? (disk : Disk) (location : Location) : Option Node :=
  if location.isEmpty then some .directory
  else (disk.nodes.find? fun e => e.1 = location).map Prod.snd

/-- The disk with another node at a location. -/
def put (disk : Disk) (location : Location) (node : Node) : Disk :=
  ⟨(disk.nodes.filter fun e => e.1 ≠ location) ++ [(location, node)]⟩

/-- The disk without the node at a location. -/
def erase (disk : Disk) (location : Location) : Disk :=
  ⟨disk.nodes.filter fun e => e.1 ≠ location⟩

/-- The working directory; no path spells its name. -/
def home : Location := [[Path.slash]]

/-- The location that some names give. -/
def locationOf (names : List String) : Location := names.map fun name => Utf8.encode name.toList

/-- The disk with nothing but an empty working directory and what every system has. -/
def fresh : Disk where
  nodes := [(home, .directory), (locationOf ["tmp"], .directory), (locationOf ["dev"], .directory),
    (locationOf ["dev", "null"], .device false), (locationOf ["dev", "full"], .device true)]

/-! ## Walking -/

/-- Where a path leads, and whether the path asks for a directory by a slash at its end. -/
structure Spot where
  location : Location
  endsInSlash : Bool
  deriving DecidableEq, Repr

/-- The number of bytes that a name may have. -/
def nameLimit : Nat := 255

/-- The number of bytes that a path may have, with one more for its end. -/
def pathLimit : Nat := 4096

/-- The step from a directory along a segment. -/
def step (location : Location) (segment : Bytes) : Location :=
  if Path.isIdle segment then location
  else if segment = [Path.dot, Path.dot] then location.dropLast
  else location ++ [segment]

/-- Whether a segment is a name. -/
def isName (segment : Bytes) : Bool := !Path.isIdle segment && segment ≠ [Path.dot, Path.dot]

/-- Where the walk along a path starts. -/
def origin (path : Path) : Location := if path.isAbsolute then [] else home

/-- Walks from a directory along segments; all but the last have to lead to directories, and their
names have to be short enough. -/
def walkFrom (disk : Disk) (location : Location) : List Bytes → Except FileError Spot
  | [] => .ok ⟨location, false⟩
  | [segment] => .ok ⟨step location segment, false⟩
  | segment :: rest =>
    let next := step location segment
    if rest.all List.isEmpty && isName segment then .ok ⟨next, true⟩
    else if nameLimit < segment.length then .error .nameTooLong
    else match disk.node? next with
      | some .directory => walkFrom disk next rest
      | some _ => .error .notDirectory
      | none => .error .missing

/-- Walks along a path. -/
def walk (disk : Disk) (path : Path) : Except FileError Spot :=
  if path.bytes.contains 0 then .error .zeroByte
  else if path.bytes.isEmpty then .error .missing
  else if pathLimit ≤ path.bytes.length then .error .nameTooLong
  else walkFrom disk (origin path) (pieces (· == Path.slash) path.bytes)

/-! ## Operations -/

/-- Refuses a location whose last name is too long. -/
def checkName (location : Location) : Except FileError Unit :=
  if location.getLast?.any fun name => nameLimit < name.length then .error .nameTooLong else .ok ()

/-- The spot that a path leads to and the node there; a spot that is asked for as a directory has to
be one. -/
def find (disk : Disk) (path : Path) : Except FileError (Spot × Node) := do
  let spot ← walk disk path
  checkName spot.location
  match disk.node? spot.location with
  | none => throw .missing
  | some .directory => return (spot, .directory)
  | some node => if spot.endsInSlash then throw .notDirectory else return (spot, node)

/-- The node that a path leads to. -/
def lookup (disk : Disk) (path : Path) : Except FileError Node :=
  return (← disk.find path).2

/-- The content of a file. -/
def read (disk : Disk) (path : Path) : Except FileError Bytes := do
  match ← disk.lookup path with
  | .file content => return content
  | .directory => throw .isDirectory
  | .program _ | .device _ => return []

/-- Whether a path leads to anything. -/
def isPresent (disk : Disk) (path : Path) : Bool :=
  match disk.lookup path with
  | .ok _ => true
  | .error _ => false

/-- The disk with a file of the given content at a path; a device takes the content and the disk
stays as it is. -/
def write (disk : Disk) (path : Path) (content : Bytes) : Except FileError Disk := do
  let spot ← walk disk path
  if spot.endsInSlash || disk.node? spot.location = some .directory then throw .isDirectory
  checkName spot.location
  match disk.node? spot.location with
  | some (.device isFull) => if isFull && !content.isEmpty then throw .deviceFull else return disk
  | _ => return disk.put spot.location (.file content)

/-- The disk without the file at a path. -/
def remove (disk : Disk) (path : Path) : Except FileError Disk := do
  match ← disk.find path with
  | (_, .directory) => throw .isDirectory
  | (spot, _) => return disk.erase spot.location

/-! ## Setting up and looking at a disk -/

/-- The disk with a node at the end of a way from a location, and with directories on the way. -/
def furnishFrom (disk : Disk) (location : Location) (node : Node) : List Bytes → Disk
  | [] => disk
  | [segment] => disk.put (step location segment) node
  | segment :: rest =>
    let next := step location segment
    let paved := if (disk.node? next).isNone then disk.put next .directory else disk
    furnishFrom paved next node rest

/-- The disk with a node at a path, and with directories on the way to it. -/
def furnish (disk : Disk) (path : Path) (node : Node) : Disk :=
  furnishFrom disk (origin path) node (path.segments.filter fun segment => !Path.isIdle segment)

/-- The path of a location below the working directory. -/
def pathOf? (location : Location) : Option Path :=
  if location.take home.length = home then
    some ⟨joined Path.slash (location.drop home.length)⟩
  else none

/-- The files below the working directory with their content, but nothing whose path has one of the
given names in it. -/
def files (disk : Disk) (without : List Bytes) : List (Path × Bytes) :=
  disk.nodes.filterMap fun e => match e.2 with
    | .file content =>
      if e.1.any fun name => without.contains name then none
      else (pathOf? e.1).map fun path => (path, content)
    | _ => none

end Disk

end KernelIsa
