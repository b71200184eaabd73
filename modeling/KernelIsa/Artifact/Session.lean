import KernelIsa.Artifact.Name
import KernelIsa.Collection.Keyed
import KernelIsa.Fault
import KernelIsa.Json.Value

/-!
# Artifact/Session — the record of a run

A session keeps a `Record` for each device and for each kernel of a device, in the order of their
keys, and a `Tally` of what happened.  Its views are the listings of kernels (`kernelListings`), one
binary for each device (`binaries`) and the temporary files (`temporaryFiles`).  The session document
tells the sources of a run and every record of its session as JSON; a path that is no UTF-8 text has
no place in it (`Document.write`).
-/

namespace KernelIsa

/-! ## Records -/

/-- What a record is about: a device, or a kernel of it. -/
structure RecordKey where
  device : Text
  kernel : Option Text
  deriving DecidableEq, Repr

namespace RecordKey

/-- By device, then the device itself before its kernels. -/
instance : Ord RecordKey where
  compare a b := (compare a.device b.device).then (compare a.kernel b.kernel)

theorem compare_eq (a b : RecordKey) :
    compare a b = (compare a.device b.device).then (compare a.kernel b.kernel) := rfl

instance : Std.TransOrd RecordKey :=
  inferInstanceAs (Std.TransCmp (compareLex (compareOn RecordKey.device)
    (compareOn RecordKey.kernel)))

instance : Std.LawfulEqOrd RecordKey where
  eq_of_compare {a b} h := by
    rw [compare_eq, Ordering.then_eq_eq] at h
    obtain ⟨device, kernel⟩ := a
    obtain ⟨device', kernel'⟩ := b
    simp_all

end RecordKey

/-- The files that a device or a kernel left, and whether its build went well. -/
structure Record where
  binary : Option Path := none
  listing : Option Path := none
  binaryIsTemporary : Bool := false
  listingIsTemporary : Bool := false
  success : Bool := false
  deriving DecidableEq, Repr

namespace Record

/-- The record of a failure, without files. -/
def failed : Record := {}

/-- The record of a binary. -/
def ofBinary (binary : Placement) : Record :=
  { binary := some binary.path, binaryIsTemporary := binary.isTemporary, success := true }

/-- The record of a kernel's listing. -/
def ofListing (listing : Placement) : Record :=
  { listing := some listing.path, listingIsTemporary := listing.isTemporary, success := true }

/-- The record with its binary replaced. -/
def withBinary (record : Record) (binary : Placement) : Record :=
  { record with binary := some binary.path, binaryIsTemporary := binary.isTemporary }

/-- The files of a record that are removed at the end. -/
def temporaryFiles (record : Record) : List Path :=
  (if record.binaryIsTemporary then record.binary.toList else [])
    ++ if record.listingIsTemporary then record.listing.toList else []

end Record

/-! ## The tally -/

/-- How often things happened in a run. -/
structure Tally where
  compiled : Nat := 0
  failed : Nat := 0
  split : Nat := 0
  reduced : Nat := 0
  removed : Nat := 0
  deriving DecidableEq, Repr

namespace Tally

instance : Add Tally where
  add a b :=
    { compiled := a.compiled + b.compiled
      failed := a.failed + b.failed
      split := a.split + b.split
      reduced := a.reduced + b.reduced
      removed := a.removed + b.removed }

/-- The summary of a run. -/
def summary (tally : Tally) : Text :=
  "Run statistics:\n  Targets compiled: ".toList ++ decimal tally.compiled
    ++ "\n  Targets failed: ".toList ++ decimal tally.failed
    ++ "\n  Kernels split: ".toList ++ decimal tally.split
    ++ "\n  Kernels reduced: ".toList ++ decimal tally.reduced
    ++ "\n  Temp files removed: ".toList ++ decimal tally.removed

end Tally

/-! ## The session -/

/-- The records and the tally of a run. -/
structure Session where
  records : Keyed RecordKey Record := Keyed.empty
  tally : Tally := {}

namespace Session

/-- The session with a record put in, in the place of one with the same key. -/
def insert (session : Session) (key : RecordKey) (record : Record) : Session :=
  { session with records := session.records.insert key record }

/-- The session with more things counted. -/
def count (session : Session) (tally : Tally) : Session :=
  { session with tally := session.tally + tally }

/-- The session with everything from another one put in. -/
def merge (session other : Session) : Session :=
  { records := session.records.union other.records, tally := session.tally + other.tally }

/-- The session in which every record of a device has the given binary. -/
def setBinary (session : Session) (device : Text) (binary : Placement) : Session :=
  { session with
    records := session.records.mapValues fun key record =>
      if key.device = device then record.withBinary binary else record }

/-- The records of a device. -/
def deviceRecords (session : Session) (device : Text) : List (RecordKey × Record) :=
  session.records.entries.filter fun e => e.1.device = device

/-- A kernel with a listing. -/
structure KernelListing where
  device : Text
  kernel : Text
  listing : Path
  record : Record

/-- The kernel of an entry, if its build went well and left a listing. -/
def kernelListing? : RecordKey × Record → Option KernelListing
  | (⟨device, some kernel⟩, record) =>
    if record.success then record.listing.map fun listing => ⟨device, kernel, listing, record⟩
    else none
  | (⟨_, none⟩, _) => none

/-- The kernels with a listing, in the order of their keys. -/
def kernelListings (session : Session) : List KernelListing :=
  session.records.entries.filterMap kernelListing?

/-- The device and binary of an entry whose build went well. -/
def deviceBinary? (e : RecordKey × Record) : Option (Text × Path) :=
  if e.2.success then e.2.binary.map fun binary => (e.1.device, binary) else none

/-- Each device with the binary of its first record that has one. -/
def binaries (session : Session) : List (Text × Path) :=
  (Keyed.ofList (session.records.entries.filterMap deviceBinary?).reverse).entries

/-- Puts a path into a sorted list, unless a spelling of it is there. -/
def insertPath (p : Path) : List Path → List Path
  | [] => [p]
  | q :: rest => match Path.order p q with
    | .lt => p :: q :: rest
    | .eq => q :: rest
    | .gt => q :: insertPath p rest

/-- The files to be removed at the end, sorted by components and each once, in the spelling that
comes first. -/
def temporaryFiles (session : Session) : List Path :=
  (session.records.values.flatMap Record.temporaryFiles).foldl
    (fun files p => insertPath p files) []

end Session

end KernelIsa

/-! ## The session document -/

namespace KernelIsa.Document

/-- The fault of a path that is no text. -/
def pathFault : Fault := .document "path contains invalid UTF-8 characters".toList

/-- A path as a JSON text. -/
def path (p : Path) : Except Fault Json :=
  match Utf8.decode? p.bytes with
  | some t => .ok (.text t)
  | none => .error pathFault

/-- A path that may be absent. -/
def path? : Option Path → Except Fault Json
  | some p => path p
  | none => .ok .null

/-- An entry of the session. -/
def entry (e : RecordKey × Record) : Except Fault Json := do
  let binary ← path? e.2.binary
  let listing ← path? e.2.listing
  return .object [("device".toList, .text e.1.device),
    ("kernel".toList, (e.1.kernel.map Json.text).getD .null),
    ("bin_file".toList, binary), ("isa_file".toList, listing),
    ("is_bin_temp".toList, .bool e.2.binaryIsTemporary),
    ("is_isa_temp".toList, .bool e.2.listingIsTemporary),
    ("success".toList, .bool e.2.success)]

/-- The document of a session as a JSON value. -/
def value (sources : List Path) (session : Session) : Except Fault Json := do
  let sources ← sources.mapM path
  let outputs ← session.records.entries.mapM entry
  return .object [("sources".toList, .list sources), ("outputs".toList, .list outputs)]

/-- The document of a session. -/
def write (sources : List Path) (session : Session) : Except Fault Text :=
  (value sources session).map Json.render

end KernelIsa.Document
