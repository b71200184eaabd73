import KernelIsa.Build.Listing
import KernelIsa.Device.Table

/-!
# Build/Target — one target, from its sources to its records

`binary` compiles the sources of a target into a fresh file; `Target.build` goes on to intermediate
code, warnings and listings.  A failure stays with the target: it is told, recorded and counted, and
the answer says whether the target went well.
-/

namespace KernelIsa

/-- What a build works with. -/
structure Builder (m : Type → Type) where
  host : Host m
  services : Services m
  compilerNames : CompilerNames
  workspace : Workspace

namespace Target

variable {m : Type → Type} [Monad m]

/-- The compiler, as faults call it. -/
def compilerTool : Text := "compiler".toList

/-! ## Compiling -/

/-- Compiles the sources into a binary that was not there before, and gives what the compiler had to
say. -/
def binary (builder : Builder m) (request : Request) (compilerName : Text) (output : Path) :
    Step m Text := do
  match ← builder.host.files.remove output with
  | .ok _ => pure ()
  | .error error => if error ≠ .missing then throw (.file output error)
  let result ← Step.ask
    (builder.services.compile compilerName request.options request.sources output)
  let result ← Step.ofExcept (result.check compilerTool)
  if !(← builder.host.files.isPresent output) then throw (.noOutput compilerTool output)
  return result.stderr

/-- The file for the intermediate code of a source; among several sources its name tells which. -/
def intermediateName (base : Path) (device : Text) (sources : List Path) (source : Path) : Path :=
  outputName base "ll".toList device (if 1 < sources.length then some (sourceStem source) else none)

/-- Writes the intermediate code of some sources, up to the first that fails. -/
def intermediates (builder : Builder m) (options : Options) (device compilerName : Text)
    (name : Path → Path) : List Path → Step m Unit
  | [] => return
  | source :: rest => do
    builder.host.tell (.info ("Extracting LLVM IR for ".toList ++ device ++ " from ".toList
      ++ source.display ++ "...".toList))
    let result ← Step.ask
      (builder.services.compileIntermediate compilerName options source (name source))
    let _ ← Step.ofExcept (result.check compilerTool)
    intermediates builder options device compilerName name rest

/-- The warning that the compiler's words hold, if they hold one. -/
def warning? (words : Text) : Option Notice :=
  if Text.hasMark "warning:".toList words then some (.warning (Text.trimEnd words)) else none

/-! ## Recording -/

/-- The session of a target and whether the target went well. -/
structure Outcome where
  session : Session
  succeeded : Bool

/-- The outcome of a target whose binary could not be built. -/
def Outcome.unbuilt (device : Text) : Outcome where
  session := ({} : Session).insert ⟨device, none⟩ Record.failed |>.count { failed := 1 }
  succeeded := false

/-- The records of a target without listings. -/
def withoutListings (device : Text) (binary : Placement) : Session :=
  ({} : Session).insert ⟨device, none⟩ (Record.ofBinary binary)

/-- The records of a target whose listings were extracted.  After a fault the device gets a failed
record with the binary; otherwise it gets one of its own if no kernel went well, and every record
gets the binary. -/
def withListings (device : Text) (binary : Placement) (extraction : Extraction) : Session :=
  let kernels := extraction.records.foldl
    (fun session e => session.insert ⟨device, some e.1⟩ e.2) ({} : Session)
  let counted := kernels.count { split := extraction.split, reduced := extraction.reduced }
  match extraction.fault with
  | some _ => counted.insert ⟨device, none⟩ (Record.failed.withBinary binary)
  | none =>
    let settled :=
      if (counted.deviceRecords device).any fun e => e.2.success then counted
      else counted.insert ⟨device, none⟩ (Record.ofBinary binary)
    settled.setBinary device binary

/-! ## Building -/

/-- Writes the intermediate code if it is wanted, and shows the compiler's warnings if they are and
the code is not.  Answers whether that went well. -/
def intermediateOrWarnings (builder : Builder m) (request : Request) (device compilerName : Text)
    (words : Text) : Checked m Bool := do
  match request.outputs.intermediate with
  | some base =>
    match ← (intermediates builder request.options device compilerName
        (intermediateName base device request.sources) request.sources).run with
    | .ok _ => return true
    | .error fault =>
      builder.host.tell (.error ("Extracting LLVM IR for ".toList ++ device ++ " failed: ".toList
        ++ fault.message))
      return false
  | none =>
    if request.warnings then match warning? words with
      | some notice => builder.host.tell notice
      | none => pure ()
    return true

/-- The session of a target whose binary was built, and whether its listings went well. -/
def listings (builder : Builder m) (request : Request) (device compilerName : Text)
    (binary : Placement) : Checked m (Session × Bool) := do
  if !request.outputs.needsListing then return (withoutListings device binary, true)
  else
    let extraction ← Extraction.extract builder.host builder.services request device compilerName
      binary.path (builder.workspace.listing request.outputs.listing device)
    match extraction.fault with
    | some fault =>
      builder.host.tell (.error ("Extracting ISA for ".toList ++ device ++ " failed: ".toList
        ++ fault.message))
    | none => pure ()
    return (withListings device binary extraction, extraction.fault.isNone)

/-- Builds a target. -/
def build (builder : Builder m) (request : Request) (device : Text) : Checked m Outcome := do
  let compilerName := builder.compilerNames.nameFor device
  let placement := builder.workspace.binary request.outputs.binary device
  builder.host.tell (.info ("Compiling for ".toList ++ device ++ "...".toList))
  match ← (binary builder request compilerName placement.path).run with
  | .error fault =>
    builder.host.tell (.error ("Compiling for ".toList ++ device ++ " failed: ".toList
      ++ fault.message))
    return Outcome.unbuilt device
  | .ok words =>
    builder.host.tell (.info ("Compiling for ".toList ++ device ++ "... succeeded".toList))
    let first ← intermediateOrWarnings builder request device compilerName words
    let (session, second) ← listings builder request device compilerName placement
    let succeeded := first && second
    return ⟨session.count { compiled := 1, failed := if succeeded then 0 else 1 }, succeeded⟩

end Target

end KernelIsa
