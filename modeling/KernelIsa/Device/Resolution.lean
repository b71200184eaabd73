import KernelIsa.Device.Table
import KernelIsa.Fault
import KernelIsa.Notice

/-!
# Device/Resolution — from device names as typed to targets

Each name is judged on its own (`Resolver.judge`): it may be that of a processor, of a device whose
architecture string holds a supported target, or of a device in the supplement.  `Resolver.resolve`
gathers the verdicts and fails only if no target is left; without names the default target is
taken.
-/

namespace KernelIsa

/-! ## Further devices -/

/-- Devices that are accepted without being known. -/
structure Supplement where
  devices : List Text
  deriving DecidableEq, Repr

namespace Supplement

/-- The supplement without devices. -/
def empty : Supplement := ⟨[]⟩

/-- The devices that a text lists. -/
def ofText (text : Text) : Supplement :=
  let names := (Text.lines text).filter fun line => !Text.hasMark ['/', '/'] line
  ⟨(names.map fun line => Text.lower (Text.trim line)).filter fun name => !name.isEmpty⟩

/-- Whether a device is listed. -/
def contains (supplement : Supplement) (device : Text) : Bool :=
  supplement.devices.contains (Text.lower device)

end Supplement

/-! ## Verdicts -/

/-- What a typed name turned out to be. -/
inductive Verdict
  /-- A supported target. -/
  | verified (target : Text)
  /-- A device that only the supplement lists. -/
  | unverified (target : Text)
  /-- No device, in small letters. -/
  | rejected (device : Text)
  deriving DecidableEq, Repr

namespace Verdict

/-- The target of a verdict, if it has one. -/
def target? : Verdict → Option Text
  | .verified target | .unverified target => some target
  | .rejected _ => none

/-- The name of a rejected device. -/
def rejected? : Verdict → Option Text
  | .rejected device => some device
  | _ => none

/-- The name of an unverified target. -/
def unverified? : Verdict → Option Text
  | .unverified target => some target
  | _ => none

/-- What the user is told about a verdict. -/
def notice? : Verdict → Option Notice
  | .verified _ => none
  | .unverified target => some (.warning ("Warning: using unknown target GPU: ".toList ++ target
      ++ "; successful compilation and analysis are not guaranteed.".toList))
  | .rejected device => some (.error (Fault.unknownDevice device).message)

end Verdict

/-- The targets of a request. -/
structure Resolution where
  /-- The targets, sorted and each once. -/
  targets : List Text
  /-- The rejected names, in small letters and in the order of the request. -/
  rejected : List Text
  /-- The targets that only the supplement lists, in the order of the request. -/
  unverified : List Text
  deriving DecidableEq, Repr

/-- What names are judged by: a table of targets, a source of architecture strings, and a
supplement. -/
structure Resolver where
  table : TargetTable
  architecture : Text → Option Text
  supplement : Supplement

namespace Resolver

/-- The resolver over the built-in devices, with a supplement. -/
def builtin (supplement : Supplement) : Resolver := ⟨.builtin, Family.builtin?, supplement⟩

/-- The name under which a typed name is looked up: trimmed, in small letters, and public if it was
that of a processor. -/
def lookupName (resolver : Resolver) (device : Text) : Text :=
  let name := Text.lower (Text.trim device)
  (resolver.table.publicName? name).getD name

/-- The first supported target whose name occurs in the architecture string of a device. -/
def match? (resolver : Resolver) (name : Text) : Option Text :=
  (resolver.architecture name).bind fun architecture =>
    resolver.table.supported.find? fun target => Text.hasMark target (Text.lower architecture)

/-- The verdict on a typed name. -/
def judge (resolver : Resolver) (device : Text) : Verdict :=
  let name := resolver.lookupName device
  match resolver.match? name with
  | some target => .verified target
  | none =>
    if resolver.supplement.contains name then .unverified name else .rejected (Text.lower device)

/-- The notices that come with resolving a request. -/
def notices (resolver : Resolver) (devices : List Text) : List Notice :=
  (devices.map resolver.judge).filterMap Verdict.notice?

/-- The resolution that some verdicts add up to. -/
def gather (verdicts : List Verdict) : Resolution where
  targets :=
    (Keyed.ofList ((verdicts.filterMap Verdict.target?).map fun target => (target, ()))).keys
  rejected := verdicts.filterMap Verdict.rejected?
  unverified := verdicts.filterMap Verdict.unverified?

/-- The resolution of a request. -/
def resolve (resolver : Resolver) (devices : List Text) : Except Fault Resolution :=
  if devices.isEmpty then match resolver.table.latest? with
    | none => .error .noTargets
    | some target => .ok ⟨[target], [], []⟩
  else
    let resolution := gather (devices.map resolver.judge)
    if resolution.targets.isEmpty then .error .noTargets else .ok resolution

end Resolver

end KernelIsa
