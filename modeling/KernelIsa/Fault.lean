import KernelIsa.FileError

/-!
# Fault — what can go wrong, and how it is told

A `Fault` is the cause for which a step of a build fails; `Fault.message` is its wording and
`Fault.category` its kind.
-/

namespace KernelIsa

/-- The kinds of faults. -/
inductive Category
  | configuration
  | externalProcess
  | parsing
  | io
  deriving DecidableEq, Repr

/-- Why a step of a build fails. -/
inductive Fault
  | unknownDevice (device : Text)
  | noTargets
  | noSources
  | unknownKernel (name : Text)
  | noAnalyzer (pass : Text)
  | launch (tool : Text) (error : FileError)
  | toolFailed (tool status stderr : Text)
  | noOutput (tool : Text) (path : Path)
  | disorder (binary : Path)
  | noCodeSize (kernel : Text)
  | codeObject (path : Path) (reason : Text)
  | file (path : Path) (error : FileError)
  | document (reason : Text)
  deriving DecidableEq, Repr

namespace Fault

/-- The kind of a fault. -/
def category : Fault → Category
  | .unknownDevice _ | .noTargets | .noSources | .unknownKernel _ | .noAnalyzer _ => .configuration
  | .launch _ _ | .toolFailed _ _ _ | .noOutput _ _ => .externalProcess
  | .disorder _ | .noCodeSize _ | .codeObject _ _ => .parsing
  | .file _ _ | .document _ => .io

/-- The wording of a fault. -/
def message : Fault → Text
  | .unknownDevice device =>
    "unknown device name provided: ".toList ++ device ++ ". Cannot compile for this target".toList
  | .noTargets => "no valid target device was resolved from the requested devices".toList
  | .noSources => "no input file".toList
  | .unknownKernel name => "cannot find OpenCL kernel: ".toList ++ name
  | .noAnalyzer pass => "no ISA analyzer configured; required for ".toList ++ pass
  | .launch tool error => "failed to launch ".toList ++ tool ++ ": ".toList ++ error.message
  | .toolFailed tool status stderr =>
    tool ++ " failed (".toList ++ status ++ ")\n".toList ++ stderr
  | .noOutput tool path => tool ++ " did not produce ".toList ++ path.display
  | .disorder binary =>
    "kernel spans are out of order in the disassembly of ".toList ++ binary.display
  | .noCodeSize kernel => "code size unavailable for kernel ".toList ++ kernel
  | .codeObject path reason =>
    "cannot read code object ".toList ++ path.display ++ ": ".toList ++ reason
  | .file path error => "I/O error on ".toList ++ path.display ++ ": ".toList ++ error.message
  | .document reason => "failed to serialize session metadata: ".toList ++ reason

end Fault

end KernelIsa
