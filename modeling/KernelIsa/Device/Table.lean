import KernelIsa.Collection.Keyed
import KernelIsa.Text.Basic

/-!
# Device/Table — the names of devices, and what is known of them

A device has the name of its processor in LLVM, the public name under which it is offered, and at
times a third one that the compiler takes.  A `TargetTable` lists processors with public names,
oldest first; its public names are the supported targets, and the last one is the default.

Two more tables are looked up without regard to capitals: `Family.builtin?` gives the architecture
string of a device, the family with the device's name behind it, and `Budget.of?` what a kernel may
use on it.
-/

namespace KernelIsa

/-! ## Names -/

/-- Processor names with public names, in the order in which the devices came out. -/
structure TargetTable where
  entries : List (Text × Text)

namespace TargetTable

/-- The supported devices. -/
def builtin : TargetTable where
  entries := [("gfx801", "carrizo"), ("gfx802", "tonga"), ("gfx803", "fiji"),
    ("gfx803", "ellesmere"), ("gfx803", "baffin"), ("gfx803", "gfx804"), ("gfx900", "gfx900"),
    ("gfx902", "gfx902"), ("gfx904", "gfx904"), ("gfx906", "gfx906"), ("gfx908", "gfx908"),
    ("gfx90a", "gfx90a"), ("gfx90c", "gfx90c"), ("gfx942", "gfx942"), ("gfx1010", "gfx1010"),
    ("gfx1011", "gfx1011"), ("gfx1012", "gfx1012"), ("gfx1030", "gfx1030"),
    ("gfx1031", "gfx1031"), ("gfx1032", "gfx1032"), ("gfx1034", "gfx1034"),
    ("gfx1035", "gfx1035"), ("gfx1100", "gfx1100"), ("gfx1101", "gfx1101"),
    ("gfx1102", "gfx1102"), ("gfx1103", "gfx1103"), ("gfx1150", "gfx1150"),
    ("gfx1151", "gfx1151"), ("gfx1152", "gfx1152"), ("gfx1200", "gfx1200"),
    ("gfx1201", "gfx1201")].map fun e => (e.1.toList, e.2.toList)

/-- The public name of a processor; the first entry counts. -/
def publicName? (table : TargetTable) (processor : Text) : Option Text :=
  (table.entries.find? fun e => e.1 = processor).map Prod.snd

/-- The public names, sorted. -/
def supported (table : TargetTable) : List Text :=
  (Keyed.ofList (table.entries.map fun e => (e.2, ()))).keys

/-- The public name of the newest device. -/
def latest? (table : TargetTable) : Option Text := table.entries.getLast?.map Prod.snd

end TargetTable

/-- The names that the compiler takes for some public names. -/
structure CompilerNames where
  byDevice : Keyed Text Text

namespace CompilerNames

/-- The table of a list of public names with compiler names; the last entry of a device counts. -/
def ofList (entries : List (Text × Text)) : CompilerNames := ⟨Keyed.ofList entries⟩

/-- The devices that the compiler knows under another name. -/
def builtin : CompilerNames :=
  ofList [("ellesmere".toList, "polaris10".toList), ("baffin".toList, "polaris11".toList),
    ("gfx804".toList, "gfx803".toList)]

/-- The other name of a device, if it has one. -/
def lookup? (names : CompilerNames) (device : Text) : Option Text := names.byDevice.get? device

/-- The name of a device for the compiler. -/
def nameFor (names : CompilerNames) (device : Text) : Text := (names.lookup? device).getD device

end CompilerNames

/-! ## What a device is and has -/

namespace Family

/-- The known devices, family by family. -/
def table : List (String × String) :=
  [("carrizo", "Graphics IP v8"), ("tonga", "Graphics IP v8"), ("fiji", "Graphics IP v8"),
    ("ellesmere", "Graphics IP v8"), ("baffin", "Graphics IP v8"), ("gfx804", "Graphics IP v8"),
    ("gfx900", "Vega"), ("gfx902", "Vega"), ("gfx904", "Vega"), ("gfx906", "Vega"),
    ("gfx908", "CDNA"), ("gfx90a", "CDNA2"), ("gfx90c", "Vega"), ("gfx942", "CDNA3"),
    ("gfx1010", "RDNA"), ("gfx1011", "RDNA"), ("gfx1012", "RDNA"), ("gfx1030", "RDNA2"),
    ("gfx1031", "RDNA2"), ("gfx1032", "RDNA2"), ("gfx1034", "RDNA2"), ("gfx1035", "RDNA2"),
    ("gfx1100", "RDNA3"), ("gfx1101", "RDNA3"), ("gfx1102", "RDNA3"), ("gfx1103", "RDNA3"),
    ("gfx1150", "RDNA3.5"), ("gfx1151", "RDNA3.5"), ("gfx1152", "RDNA3.5"), ("gfx1200", "RDNA4"),
    ("gfx1201", "RDNA4")]

/-- The architecture string of a device, if the device is known. -/
def builtin? (device : Text) : Option Text :=
  (table.find? fun e => e.1.toList = Text.lower device).map fun e =>
    e.2.toList ++ " (".toList ++ e.1.toList ++ [')']

end Family

/-- The scalar registers, vector registers and bytes of local memory of a device. -/
structure Budget where
  scalars : Nat
  vectors : Nat
  localBytes : Nat
  deriving DecidableEq, Repr

namespace Budget

/-- The devices with 102 scalar registers. -/
def withFewScalars : List String :=
  ["carrizo", "tonga", "fiji", "ellesmere", "baffin", "polaris10", "polaris11", "gfx804", "gfx900",
    "gfx902", "gfx904", "gfx906", "gfx908", "gfx90c"]

/-- The devices with 106 scalar registers. -/
def withManyScalars : List String :=
  ["gfx1010", "gfx1011", "gfx1012", "gfx1030", "gfx1031", "gfx1032", "gfx1034", "gfx1035",
    "gfx1100", "gfx1101", "gfx1102", "gfx1103"]

/-- The budget of a device, if it is known. -/
def of? (device : Text) : Option Budget :=
  let isListed := fun (names : List String) => names.any fun name => name.toList = Text.lower device
  if isListed withFewScalars then some ⟨102, 256, 65536⟩
  else if isListed withManyScalars then some ⟨106, 256, 65536⟩
  else none

end Budget

end KernelIsa
