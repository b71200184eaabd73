import KernelIsa.Artifact.Session
import KernelIsa.Build.Services
import KernelIsa.Listing.Reduction
import KernelIsa.Listing.Split

/-!
# Build/Listing — from a binary to one listing per kernel

`fragments` disassembles a binary and splits the disassembly, `reduceAll` trims each fragment to the
code size of its kernel, and `writeAll` writes the listings in the order of the kernels' names.
`extract` puts these together; what was recorded before a fault stays in its answer.
-/

namespace KernelIsa.Extraction

variable {m : Type → Type} [Monad m]

/-! ## Fragments -/

/-- The fault or the overflow behind a failure to cut. -/
def ofCut {α : Type} (binary : Path) : Except Split.CutFailure α → Step m α
  | .ok a => pure a
  | .error .disorder => throw (.disorder binary)
  | .error .overflow => Step.ofChecked (.error .addition)

/-- What the user is told when not every listed kernel was found. -/
def shortage? (binary : Path) (fragments : Split.Fragments) : Option Notice :=
  if fragments.found < fragments.listed then
    some (.warning ("Found ".toList ++ decimal fragments.found ++ " of ".toList
      ++ decimal fragments.listed ++ " kernel(s) in the disassembly of ".toList ++ binary.display))
  else none

/-- The fragments of a binary's disassembly.  A kernel that was asked for has to be one of the
binary's. -/
def fragments (host : Host m) (services : Services m) (request : Request) (compilerName : Text)
    (binary : Path) : Step m Split.Fragments := do
  let output ← Step.ask (services.disassemble binary compilerName request.options.lineNumbers)
  let output ← Step.ofExcept (output.check "disassembler".toList)
  let kernels ← Step.ask (services.kernelNames binary)
  match request.kernel with
  | some kernel => if !kernels.contains kernel then throw (.unknownKernel kernel)
  | none => pure ()
  let fragments ← ofCut binary (Split.split output.stdout kernels)
  match shortage? binary fragments with
  | some notice => host.tell notice
  | none => pure ()
  return fragments

/-! ## Reduction -/

/-- What became of a kernel's fragment. -/
inductive Trimmed
  /-- The kernel has no code size. -/
  | unsized
  | kept
  | reduced (fragment : Text)
  deriving DecidableEq, Repr

/-- What the user is told when the address on a line cannot be read. -/
def unreadable (line : Text) : Notice :=
  .warning ("Unparsable instruction address, kernel left untrimmed: ".toList ++ Text.trim line)

/-- Trims the fragment of a kernel to its code size in a binary. -/
def trim (host : Host m) (services : Services m) (binary : Path) (kernel fragment : Text) :
    Checked m Trimmed := do
  match ← services.codeSize binary kernel with
  | .error fault =>
    host.tell (.error fault.message)
    return .unsized
  | .ok none =>
    host.tell (.error (Fault.noCodeSize kernel).message)
    return .unsized
  | .ok (some size) =>
    match ← (ExceptT.mk (pure (Reduction.reduce fragment size)) : Checked m _) with
    | .unreadable line =>
      host.tell (unreadable line)
      return .kept
    | .unchanged => return .kept
    | .reduced fragment => return .reduced fragment

/-- A kernel with its fragment and what became of it. -/
structure TrimmedKernel where
  kernel : Text
  fragment : Text
  trimmed : Trimmed

/-- The fragment after trimming. -/
def TrimmedKernel.result (k : TrimmedKernel) : Text :=
  match k.trimmed with
  | .reduced fragment => fragment
  | _ => k.fragment

/-- Whether the kernel has no code size. -/
def TrimmedKernel.isUnsized (k : TrimmedKernel) : Bool := k.trimmed = .unsized

/-- Whether the fragment changed. -/
def TrimmedKernel.isReduced (k : TrimmedKernel) : Bool :=
  match k.trimmed with
  | .reduced _ => true
  | _ => false

/-- Trims the fragments of kernels in their order. -/
def reduceAll (host : Host m) (services : Services m) (binary : Path) :
    List (Text × Text) → Checked m (List TrimmedKernel)
  | [] => return []
  | (kernel, fragment) :: rest => do
    let trimmed ← trim host services binary kernel fragment
    let rest ← reduceAll host services binary rest
    return ⟨kernel, fragment, trimmed⟩ :: rest

/-! ## Writing -/

/-- The records of kernels, in their order, and the fault that ended the writing. -/
structure Written where
  records : List (Text × Record)
  fault : Option Fault

/-- One more record in front. -/
def Written.cons (kernel : Text) (record : Record) (written : Written) : Written :=
  { written with records := (kernel, record) :: written.records }

/-- Writes the listings of kernels up to the first one that cannot be written; a kernel without code
size gets none. -/
def writeAll (host : Host m) (place : Text → Placement) : List TrimmedKernel → m Written
  | [] => return ⟨[], none⟩
  | k :: rest => do
    if k.isUnsized then return (← writeAll host place rest).cons k.kernel Record.failed
    else
      match ← host.files.writeText (place k.kernel).path k.result with
      | .error fault => return ⟨[], some fault⟩
      | .ok _ =>
        return (← writeAll host place rest).cons k.kernel (Record.ofListing (place k.kernel))

end Extraction

/-! ## Extraction -/

/-- What disassembling a binary left: how many kernels were split off and reduced, their records in
order, and the fault that ended it early. -/
structure Extraction where
  split : Nat
  reduced : Nat
  records : List (Text × Record)
  fault : Option Fault

namespace Extraction

variable {m : Type → Type} [Monad m]

/-- Whether listings of a kernel are wanted. -/
def isWanted (request : Request) (kernel : Text) : Bool :=
  match request.kernel with
  | some wanted => kernel = wanted
  | none => true

/-- Extracts the listings of a device's binary. -/
def extract (host : Host m) (services : Services m) (request : Request) (device compilerName : Text)
    (binary : Path) (place : Text → Placement) : Checked m Extraction := do
  host.tell (.info ("Extracting ISA for ".toList ++ device ++ "...".toList))
  match ← (fragments host services request compilerName binary).run with
  | .error fault => return ⟨0, 0, [], some fault⟩
  | .ok fragments =>
    let trimmed ← reduceAll host services binary fragments.byKernel.entries
    let written ← (writeAll host place (trimmed.filter fun k => isWanted request k.kernel) : m _)
    if written.fault.isNone then
      host.tell (.info ("Extracting ISA for ".toList ++ device ++ "... succeeded".toList))
    return ⟨trimmed.length, (trimmed.filter TrimmedKernel.isReduced).length, written.records,
      written.fault⟩

end Extraction

end KernelIsa
