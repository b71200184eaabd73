import KernelIsa.Artifact.Session
import KernelIsa.Build.Services
import KernelIsa.Listing.Row
import KernelIsa.Listing.Registers

/-!
# Build/Pass — what is made from a finished session

A `Pass` reads the session and writes one kind of artifact.  A pass over kernels attempts every
kernel and fails with the first fault (`attemptEach`); `Pass.runRequested` runs the requested passes
in order, whatever fails.
-/

namespace KernelIsa

/-- The kinds of artifacts that are made from a session. -/
inductive Pass
  | tables
  | statistics
  | liveRegisters (kind : Registers.RegisterClass)
  | graphs
  | notes
  | document
  deriving DecidableEq, Repr

namespace Pass

/-- The passes in the order in which they run. -/
def all : List Pass :=
  [.tables, .statistics, .liveRegisters .vector, .liveRegisters .scalar, .graphs, .notes, .document]

/-- The name of a pass in messages. -/
def name : Pass → Text
  | .tables => "Parsed ISA generation".toList
  | .statistics => "Statistics extraction".toList
  | .liveRegisters .vector => "Live VGPR analysis".toList
  | .liveRegisters .scalar => "Live SGPR analysis".toList
  | .graphs => "Control flow graph extraction".toList
  | .notes => "Metadata extraction".toList
  | .document => "Session metadata generation".toList

/-- The base name of a report on live registers. -/
def liveBase (outputs : Outputs) : Registers.RegisterClass → Option Path
  | .vector => outputs.liveVectors
  | .scalar => outputs.liveScalars

/-- Whether a pass has something to write. -/
def isRequested (outputs : Outputs) : Pass → Bool
  | .tables => outputs.table
  | .statistics => outputs.statistics.isSome
  | .liveRegisters kind => (liveBase outputs kind).isSome
  | .graphs => outputs.needsGraph
  | .notes => outputs.notes.isSome
  | .document => outputs.session.isSome

variable {m : Type → Type} [Monad m] {α : Type}

/-! ## Attempts -/

/-- Attempts an action on each item, tells the fault of each that fails, and gives the first
fault. -/
def attemptEach (tell : α → Fault → m Unit) (action : α → Step m Unit) :
    List α → Checked m (Option Fault)
  | [] => return none
  | item :: rest => do
    match ← (action item).run with
    | .ok _ => attemptEach tell action rest
    | .error fault =>
      tell item fault
      let _ ← attemptEach tell action rest
      return some fault

/-- A step that fails with a fault if there is one. -/
def ofFault? (result : Checked m (Option Fault)) : Step m Unit := do
  match ← (ExceptT.lift result : Step m _) with
  | some fault => throw fault
  | none => return

/-- Attempts an action on every kernel with a listing. -/
def forEachKernel (host : Host m) (pass : Pass) (session : Session)
    (action : Session.KernelListing → Step m Unit) : Step m Unit :=
  ofFault? (attemptEach
    (fun k fault => host.tell (.error (pass.name ++ " for ".toList ++ k.kernel ++ " (".toList
      ++ k.device ++ "): ".toList ++ fault.message)))
    action session.kernelListings)

/-! ## The passes -/

/-- Writes the table of a kernel beside its listing, unless the listing is temporary. -/
def table (host : Host m) (k : Session.KernelListing) : Step m Unit := do
  if k.record.listingIsTemporary then return
  let fragment ← Step.ask (host.files.readText k.listing)
  Step.ask (host.files.writeText (k.listing.withExtension "csv".toList) (Row.table fragment))

/-- Writes the statistics of a kernel. -/
def statistic (host : Host m) (services : Services m) (base : Path) (k : Session.KernelListing) :
    Step m Unit := do
  let codeSize ← match k.record.binary with
    | some binary => Step.ask (services.codeSize binary k.kernel)
    | none => pure none
  let fragment ← Step.ask (host.files.readText k.listing)
  let table ← Step.ofChecked (Statistics.table k.device k.kernel codeSize fragment)
  Step.ask (host.files.writeText (outputName base "csv".toList k.device (some k.kernel)) table)

/-- The analyzer, or the fault that there is none. -/
def requireAnalyzer (services : Services m) (pass : Pass) : Step m (Analyzer m) :=
  match services.analyzer with
  | some analyzer => pure analyzer
  | none => throw (.noAnalyzer pass.name)

/-- Has the graphs of a kernel written. -/
def graphsOf (analyzer : Analyzer m) (outputs : Outputs) (k : Session.KernelListing) :
    Step m Unit := do
  let graph := fun (base : Option Path) granularity => match base with
    | some base => Step.ask (analyzer.graph k.listing k.device granularity
        (outputName base "dot".toList k.device (some k.kernel)))
    | none => (pure () : Step m Unit)
  graph outputs.blockGraph .block
  graph outputs.instructionGraph .instruction

/-- Writes the notes of a device's binary. -/
def note (host : Host m) (services : Services m) (base : Path) (binary : Text × Path) :
    Step m Unit := do
  let text ← Step.ask (services.notes binary.2)
  Step.ask (host.files.writeText (outputName base "txt".toList binary.1 none) text)

/-- Runs a pass; without a base name for its artifacts it has nothing to do. -/
def run (host : Host m) (services : Services m) (request : Request) (session : Session)
    (pass : Pass) : Step m Unit :=
  match pass with
  | .tables => forEachKernel host pass session (table host)
  | .statistics => match request.outputs.statistics with
    | none => return
    | some base => do
      host.tell (.info "Extracting statistics...".toList)
      forEachKernel host pass session (statistic host services base)
  | .liveRegisters kind => match liveBase request.outputs kind with
    | none => return
    | some base => do
      let analyzer ← requireAnalyzer services pass
      host.tell (.info "Performing live register analysis...".toList)
      forEachKernel host pass session fun k => Step.ask (analyzer.liveRegisters k.listing k.device
        kind (outputName base "txt".toList k.device (some k.kernel)))
  | .graphs => do
    let analyzer ← requireAnalyzer services pass
    host.tell (.info "Extracting control flow graph...".toList)
    forEachKernel host pass session (graphsOf analyzer request.outputs)
  | .notes => match request.outputs.notes with
    | none => return
    | some base => ofFault? (attemptEach
        (fun binary fault => host.tell (.error (pass.name ++ " for ".toList ++ binary.1
          ++ ": ".toList ++ fault.message)))
        (note host services base) session.binaries)
  | .document => match request.outputs.session with
    | none => return
    | some path => do
      let text ← Step.ofExcept (Document.write request.sources session)
      Step.ask (host.files.writeText path text)

/-- Runs the requested ones among some passes, in order, and tells which ones fail. -/
def runRequested (host : Host m) (services : Services m) (request : Request) (session : Session) :
    List Pass → Checked m Unit
  | [] => return
  | pass :: rest => do
    if pass.isRequested request.outputs then
      match ← (pass.run host services request session).run with
      | .ok _ => pure ()
      | .error fault =>
        host.tell (.error (pass.name ++ " failed: ".toList ++ fault.message))
    runRequested host services request session rest

end Pass

end KernelIsa
