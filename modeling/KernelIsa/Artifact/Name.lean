import KernelIsa.Artifact.Path

/-!
# Artifact/Name — the names of the files of a build

A file that the user asked for is named `base-device-kernel.extension`, beside its base name and
with the base name's own extension if it has one (`outputName`).  Temporary files stand in a
workspace and carry the tag of the run (`Workspace.temporaryName`).
-/

namespace KernelIsa

/-- The name of an artifact's kind, device and kernel, in a row with dashes. -/
def hyphenated (parts : List Text) : Text := List.intercalate ['-'] parts

/-- The kernel part of a name; an empty kernel name is left out. -/
def kernelPart (kernel : Option Text) : List Text := (kernel.filter fun k => !k.isEmpty).toList

/-- The name `base-device-kernel.extension` beside `base`. -/
def outputName (base : Path) (defaultExtension device : Text) (kernel : Option Text) : Path :=
  let stem := (base.stem?.map Utf8.decodeLossy).getD []
  let extension := (base.extension?.map Utf8.decodeLossy).getD defaultExtension
  let parts := (if stem.isEmpty then [] else [stem]) ++ device :: kernelPart kernel
  let name := Path.ofText (hyphenated parts ++ '.' :: extension)
  match base.parent? with
  | some directory => if directory.bytes.isEmpty then name else directory.join name
  | none => name

/-- The name of a source file without directory and extension. -/
def sourceStem (source : Path) : Text := (source.stem?.map Utf8.decodeLossy).getD "source".toList

/-- Where the temporary files of a run are put, and the tag that sets them apart from those of other
runs. -/
structure Workspace where
  directory : Path
  tag : Text

/-- A file of the build, and whether it is removed at the end. -/
structure Placement where
  path : Path
  isTemporary : Bool
  deriving DecidableEq, Repr

namespace Workspace

/-- What starts the names of temporary binaries. -/
def binaryFamily : Text := "isaforge_lc_out".toList

/-- What starts the names of temporary listings. -/
def listingFamily : Text := "isaforge_lc_isa".toList

/-- The name of a temporary file. -/
def temporaryName (workspace : Workspace) (family device : Text) (kernel : Option Text)
    (extension : Text) : Path :=
  workspace.directory.join
    (Path.ofText (hyphenated ([family, workspace.tag, device] ++ kernelPart kernel)
      ++ '.' :: extension))

/-- Where the binary of a device goes: beside the user's base name, or into the workspace. -/
def binary (workspace : Workspace) (base : Option Path) (device : Text) : Placement :=
  match base with
  | some base => ⟨outputName base "bin".toList device none, false⟩
  | none => ⟨workspace.temporaryName binaryFamily device none "bin".toList, true⟩

/-- Where the listing of a kernel goes: beside the user's base name, or into the workspace. -/
def listing (workspace : Workspace) (base : Option Path) (device kernel : Text) : Placement :=
  match base with
  | some base => ⟨outputName base "isa".toList device (some kernel), false⟩
  | none => ⟨workspace.temporaryName listingFamily device (some kernel) "isa".toList, true⟩

end Workspace

end KernelIsa
