import KernelIsa.Artifact.Path

/-!
# Request — what to build, how, and which artifacts to leave

A `Request` names devices and sources, the compiler's options and the outputs.  An output that was
not asked for has no path.
-/

namespace KernelIsa

/-- How the compiler is to work. -/
structure Options where
  /-- Definitions for the preprocessor, `NAME` or `NAME=VALUE`. -/
  defines : List Text := []
  includePaths : List Path := []
  /-- Further options, separated by blanks. -/
  extra : Option Text := none
  optimization : Option Nat := none
  /-- Whether line numbers are put into the binary and the listing. -/
  lineNumbers : Bool := false
  deriving DecidableEq, Repr

/-- The base names of the artifacts to leave. -/
structure Outputs where
  binary : Option Path := none
  listing : Option Path := none
  /-- Whether a table stands beside each listing. -/
  table : Bool := false
  statistics : Option Path := none
  liveVectors : Option Path := none
  liveScalars : Option Path := none
  blockGraph : Option Path := none
  instructionGraph : Option Path := none
  /-- One file of intermediate code for each source. -/
  intermediate : Option Path := none
  notes : Option Path := none
  session : Option Path := none
  deriving DecidableEq, Repr

namespace Outputs

/-- Whether a control-flow graph is asked for. -/
def needsGraph (outputs : Outputs) : Bool :=
  outputs.blockGraph.isSome || outputs.instructionGraph.isSome

/-- Whether something is asked for that is made from a listing. -/
def needsListing (outputs : Outputs) : Bool :=
  outputs.listing.isSome || outputs.table || outputs.statistics.isSome
    || outputs.liveVectors.isSome || outputs.liveScalars.isSome || outputs.needsGraph

end Outputs

/-- One build. -/
structure Request where
  /-- The devices as typed; none stands for the default target. -/
  devices : List Text := []
  sources : List Path := []
  /-- The only kernel to make artifacts of. -/
  kernel : Option Text := none
  options : Options := {}
  outputs : Outputs := {}
  /-- Whether the compiler's warnings are shown. -/
  warnings : Bool := false
  deriving DecidableEq, Repr

/-- Whether more than one device was asked for. -/
def Request.isBatch (request : Request) : Bool := 1 < request.devices.length

end KernelIsa
