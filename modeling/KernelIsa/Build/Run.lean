import KernelIsa.Build.Pass
import KernelIsa.Build.Target
import KernelIsa.Device.Resolution

/-!
# Build/Run — a whole run over all targets

`compile` resolves the devices and builds the targets one after the other, each in a session of its
own; a cancelled run stops before its next target.  `run` adds the passes, unless the only device
failed, and removes the temporary files at the end.
-/

namespace KernelIsa.Run

variable {m : Type → Type} [Monad m]

/-! ## Compiling -/

/-- The targets that were built, in order, and whether the run was cancelled before the others. -/
structure Progress where
  built : List (Text × Target.Outcome)
  isCancelled : Bool

/-- Builds targets until the run is cancelled. -/
def buildAll (builder : Builder m) (request : Request) : List Text → Checked m Progress
  | [] => return ⟨[], false⟩
  | device :: rest => do
    if ← builder.host.isCancelled then
      builder.host.tell (.warning ("Cancelled, ".toList ++ device ++ " is not compiled".toList))
      return ⟨[], true⟩
    else
      let outcome ← Target.build builder request device
      let progress ← buildAll builder request rest
      return { progress with built := (device, outcome) :: progress.built }

/-- The session of a compiled request, and whether every requested device went well. -/
structure Compiled where
  session : Session
  succeeded : Bool

/-- The session with a failed record for a rejected device. -/
def reject (session : Session) (device : Text) : Session :=
  (session.insert ⟨device, none⟩ Record.failed).count { failed := 1 }

/-- What rejected devices and built targets add up to. -/
def gather (rejected : List Text) (progress : Progress) : Compiled where
  session := progress.built.foldl (fun session b => session.merge b.2.session)
    (rejected.foldl reject {})
  succeeded :=
    rejected.isEmpty && !progress.isCancelled && progress.built.all fun b => b.2.succeeded

/-- Tells some notices. -/
def tellAll (host : Host m) : List Notice → m Unit
  | [] => return
  | notice :: rest => do
    host.tell notice
    tellAll host rest

/-- Compiles a request for all its targets. -/
def compile (builder : Builder m) (resolver : Resolver) (request : Request) : Step m Compiled := do
  (tellAll builder.host (resolver.notices request.devices) : m Unit)
  let resolution ← Step.ofExcept (resolver.resolve request.devices)
  let progress ← (ExceptT.lift (buildAll builder request resolution.targets) : Step m _)
  return gather resolution.rejected progress

/-! ## The whole run -/

/-- Removes files and counts those that were there; a file that cannot be removed is told. -/
def removeAll (host : Host m) : List Path → m Nat
  | [] => return 0
  | path :: rest => do
    match ← host.files.remove path with
    | .ok _ => return (← removeAll host rest) + 1
    | .error error =>
      if error ≠ .missing then
        host.tell (.warning ("Cannot remove temporary file ".toList ++ path.display ++ ": ".toList
          ++ error.message))
      removeAll host rest

/-- Removes the temporary files of a session. -/
def cleanUp (host : Host m) (session : Session) : m Session := do
  let removed ← removeAll host session.temporaryFiles
  return session.count { removed := removed }

/-- How a run ended. -/
structure Report where
  succeeded : Bool
  /-- Whether more than one device was asked for. -/
  isBatch : Bool
  session : Session

/-- Whether the only device failed; in a batch, failures are told device by device only. -/
def Report.isFailure (report : Report) : Bool := !report.succeeded && !report.isBatch

/-- Compiles, makes the artifacts and removes the temporary files. -/
def run (builder : Builder m) (resolver : Resolver) (request : Request) : Step m Report := do
  if request.sources.isEmpty then throw .noSources
  let compiled ← compile builder resolver request
  if compiled.succeeded || request.isBatch then
    (ExceptT.lift
      (Pass.runRequested builder.host builder.services request compiled.session Pass.all)
        : Step m Unit)
  let session ← (cleanUp builder.host compiled.session : m Session)
  return ⟨compiled.succeeded, request.isBatch, session⟩

end KernelIsa.Run
