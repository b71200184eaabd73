import KernelIsa.Tool.Launch

/-!
# Tool/Clang — the compiler, the disassembler and the reader of notes

The tools of a clang installation, by their command lines (`compileArguments`,
`disassembleArguments`), and the version that the compiler tells of itself (`version?`).
-/

namespace KernelIsa

/-- Where the tools are and how they are run. -/
structure Clang where
  /-- The directory of the tools; without one they are searched for. -/
  directory : Option Path := none
  /-- A directory of system headers. -/
  includeDirectory : Option Path := none
  /-- Whether each command line is shown before it runs. -/
  echo : Bool := false

namespace Clang

/-- The name of the compiler. -/
def compiler : Text := "clang".toList

/-- The name of the disassembler. -/
def disassembler : Text := "llvm-objdump".toList

/-- The name of the reader of notes. -/
def noteReader : Text := "llvm-readobj".toList

/-- The target triple of the code. -/
def triple : Text := "amdgcn-amd-amdhsa".toList

/-- The path of a tool. -/
def tool (clang : Clang) (name : Text) : Path :=
  match clang.directory with
  | some directory => directory.join (Path.ofText name)
  | none => Path.ofText name

/-! ## Command lines -/

/-- The arguments that every compilation has. -/
def baseArguments (clang : Clang) (device : Text) (options : Options) : List Bytes :=
  (["-x".toList, "cl".toList, "-Xclang".toList, "-finclude-default-header".toList,
      "-target".toList, triple, "-mcpu=".toList ++ device].map Utf8.encode)
    ++ (match clang.includeDirectory with
      | some directory => [Utf8.encode "-isystem".toList, directory.bytes]
      | none => [])
    ++ (match options.optimization with
      | some level => [Utf8.encode ("-O".toList ++ decimal level)]
      | none => [])
    ++ (if options.lineNumbers then [Utf8.encode "-gline-tables-only".toList] else [])
    ++ options.defines.map (fun define => Utf8.encode ('-' :: 'D' :: define))
    ++ options.includePaths.flatMap (fun path => [Utf8.encode "-I".toList, path.bytes])
    ++ (match options.extra with
      | some extra => (Text.tokens extra).map Utf8.encode
      | none => [])

/-- The arguments that name an output. -/
def outputArguments (output : Path) : List Bytes := [Utf8.encode "-o".toList, output.bytes]

/-- The arguments for compiling sources into a binary. -/
def compileArguments (clang : Clang) (device : Text) (options : Options) (sources : List Path)
    (output : Path) : List Bytes :=
  clang.baseArguments device options ++ outputArguments output ++ sources.map Path.bytes

/-- The arguments for writing the intermediate code of a source. -/
def intermediateArguments (clang : Clang) (device : Text) (options : Options)
    (source output : Path) : List Bytes :=
  clang.baseArguments device options ++ ["-emit-llvm".toList, "-S".toList].map Utf8.encode
    ++ outputArguments output ++ [source.bytes]

/-- The arguments for disassembling a binary. -/
def disassembleArguments (binary : Path) (device : Text) (lineNumbers : Bool) : List Bytes :=
  ["--disassemble".toList, "--triple=".toList ++ triple, "--mcpu=".toList ++ device].map Utf8.encode
    ++ (if lineNumbers then [Utf8.encode "--line-numbers".toList] else []) ++ [binary.bytes]

/-! ## Running -/

variable {m : Type → Type} [Monad m]

/-- Runs one of the tools. -/
def run (clang : Clang) (launcher : Launcher m) (name : Text) (arguments : List Bytes) :
    m (Except Fault ToolOutput) := launcher.run clang.echo (clang.tool name) arguments

/-- The version in the words of a compiler: what stands behind `clang version ` up to a space or the
end of the line. -/
def version? (words : Text) : Option Text :=
  (Text.splitAround? "clang version ".toList words).bind fun parts =>
    let version := parts.2.takeWhile fun c => c ≠ ' ' && c ≠ '\n' && c ≠ '\r'
    if version.isEmpty then none else some version

/-- The version in the output of a compiler, or the fault that it has none. -/
def versionOf (output : ToolOutput) : Except Fault Text := do
  let output ← output.check compiler
  match version? output.stdout with
  | some version => return version
  | none => throw (.toolFailed compiler output.status "no version banner in output".toList)

/-- Asks the compiler for its version. -/
def version (clang : Clang) (launcher : Launcher m) : m (Except Fault Text) := do
  return (← clang.run launcher compiler [Utf8.encode "--version".toList]).bind versionOf

/-- Asks for the notes of a binary. -/
def notes (clang : Clang) (launcher : Launcher m) (binary : Path) : m (Except Fault Text) := do
  let result ← clang.run launcher noteReader [Utf8.encode "--notes".toList, binary.bytes]
  return (result.bind fun output => output.check noteReader).map ToolOutput.stdout

end Clang

end KernelIsa
