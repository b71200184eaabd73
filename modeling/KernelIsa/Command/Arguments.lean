import KernelIsa.Request
import KernelIsa.Text.Word
import KernelIsa.Tool.Clang

/-!
# Command/Arguments — the arguments of the command line

Arguments are read one after the other (`Reading.step`): an option with two dashes takes its value
behind an equals sign or from the next argument, one with a single dash also right behind its
letter, and letters without a value may share a dash.  Everything else is a source, and so is all
that follows `--`.  The first argument that does not fit refuses the whole line; asking for the
version or for help ends the reading as well (`Halt`).
-/

namespace KernelIsa.Command

/-! ## Options -/

/-- The options. -/
inductive Key
  | device
  | kernel
  | define
  | includePath
  | optimization
  | compilerOptions
  | lineNumbers
  | listing
  | table
  | statistics
  | liveVectors
  | liveScalars
  | blockGraph
  | instructionGraph
  | intermediate
  | binary
  | notes
  | session
  | warnings
  | toolDirectory
  | headerDirectory
  | analyzer
  | supplement
  | temporaryDirectory
  | listTargets
  | compilerVersion
  | echo
  | help
  | version
  deriving DecidableEq, Repr

namespace Key

/-- The options by their long names. -/
def longNames : List (String × Key) :=
  [("asic", .device), ("kernel", .kernel), ("compiler-options", .compilerOptions),
    ("line-numbers", .lineNumbers), ("isa", .listing), ("parse-isa", .table),
    ("analysis", .statistics), ("livereg", .liveVectors), ("livereg-sgpr", .liveScalars),
    ("cfg", .blockGraph), ("cfg-i", .instructionGraph), ("il", .intermediate), ("bin", .binary),
    ("metadata", .notes), ("session-metadata", .session), ("warnings", .warnings),
    ("compiler-bin-dir", .toolDirectory), ("compiler-inc-dir", .headerDirectory),
    ("analyzer", .analyzer), ("additional-targets", .supplement),
    ("temp-dir", .temporaryDirectory), ("list-targets", .listTargets),
    ("compiler-version", .compilerVersion), ("print-cmd", .echo), ("help", .help),
    ("version", .version)]

/-- The options by their letters. -/
def letters : List (Char × Key) :=
  [('c', .device), ('D', .define), ('I', .includePath), ('O', .optimization), ('w', .warnings),
    ('l', .listTargets), ('h', .help), ('V', .version)]

/-- The option with a long name. -/
def ofLong? (name : Bytes) : Option Key :=
  (longNames.find? fun e => Utf8.encode e.1.toList = name).map Prod.snd

/-- The option with a letter. -/
def ofLetter? (letter : UInt8) : Option Key :=
  (letters.find? fun e => e.1.toNat = letter.toNat).map Prod.snd

/-- Whether an option takes a value. -/
def takesValue : Key → Bool
  | .lineNumbers | .table | .warnings | .listTargets | .compilerVersion | .echo | .help
  | .version => false
  | _ => true

/-- Whether an option may be given more than once. -/
def isRepeatable : Key → Bool
  | .device | .define | .includePath => true
  | _ => false

/-- Whether the value of an option may be an argument that looks like an option. -/
def allowsDash : Key → Bool
  | .compilerOptions => true
  | _ => false

end Key

/-! ## Settings -/

/-- What the arguments ask for. -/
structure Settings where
  request : Request := {}
  clang : Clang := {}
  analyzer : Option Path := none
  supplement : Option Path := none
  temporaryDirectory : Option Path := none
  listTargets : Bool := false
  compilerVersion : Bool := false

/-- A path given as a value; it must not be empty. -/
def path? (value : Bytes) : Option Path := if value.isEmpty then none else some ⟨value⟩

/-- A level of optimization given as a value: a number from 0 to 3, with or without a sign. -/
def level? (value : Bytes) : Option Nat :=
  (Utf8.decode? value).bind fun t =>
    let isNegative := t.head? = some '-'
    let digits := if isNegative then t.tail else t
    if isNegative && digits.head? = some '+' then none
    else (Word.read? 10 digits).filter fun n => if isNegative then n = 0 else n ≤ 3

namespace Settings

/-- The settings with another request. -/
def onRequest (settings : Settings) (change : Request → Request) : Settings :=
  { settings with request := change settings.request }

/-- The settings with other compiler options. -/
def onOptions (settings : Settings) (change : Options → Options) : Settings :=
  settings.onRequest fun request => { request with options := change request.options }

/-- The settings with other outputs. -/
def onOutputs (settings : Settings) (change : Outputs → Outputs) : Settings :=
  settings.onRequest fun request => { request with outputs := change request.outputs }

/-- The settings with one more source. -/
def addSource? (settings : Settings) (source : Bytes) : Option Settings :=
  (path? source).map fun path =>
    settings.onRequest fun request => { request with sources := request.sources ++ [path] }

/-- The settings with an option that takes no value. -/
def flag (settings : Settings) : Key → Settings
  | .lineNumbers => settings.onOptions fun options => { options with lineNumbers := true }
  | .table => settings.onOutputs fun outputs => { outputs with table := true }
  | .warnings => settings.onRequest fun request => { request with warnings := true }
  | .listTargets => { settings with listTargets := true }
  | .compilerVersion => { settings with compilerVersion := true }
  | .echo => { settings with clang := { settings.clang with echo := true } }
  | _ => settings

/-- The settings with an option whose value is a text. -/
def giveText (settings : Settings) (value : Text) : Key → Option Settings
  | .device => some (settings.onRequest fun request =>
      { request with devices := request.devices ++ [value] })
  | .kernel => some (settings.onRequest fun request => { request with kernel := some value })
  | .define => some (settings.onOptions fun options =>
      { options with defines := options.defines ++ [value] })
  | .compilerOptions =>
    some (settings.onOptions fun options => { options with extra := some value })
  | _ => none

/-- The settings with an option whose value is a path. -/
def givePath (settings : Settings) (path : Path) : Key → Option Settings
  | .includePath => some (settings.onOptions fun options =>
      { options with includePaths := options.includePaths ++ [path] })
  | .listing => some (settings.onOutputs fun outputs => { outputs with listing := some path })
  | .statistics => some (settings.onOutputs fun outputs => { outputs with statistics := some path })
  | .liveVectors =>
    some (settings.onOutputs fun outputs => { outputs with liveVectors := some path })
  | .liveScalars =>
    some (settings.onOutputs fun outputs => { outputs with liveScalars := some path })
  | .blockGraph => some (settings.onOutputs fun outputs => { outputs with blockGraph := some path })
  | .instructionGraph => some (settings.onOutputs fun outputs =>
      { outputs with instructionGraph := some path })
  | .intermediate => some (settings.onOutputs fun outputs =>
      { outputs with intermediate := some path })
  | .binary => some (settings.onOutputs fun outputs => { outputs with binary := some path })
  | .notes => some (settings.onOutputs fun outputs => { outputs with notes := some path })
  | .session => some (settings.onOutputs fun outputs => { outputs with session := some path })
  | .toolDirectory => some { settings with
      clang := { settings.clang with directory := some path } }
  | .headerDirectory => some { settings with
      clang := { settings.clang with includeDirectory := some path } }
  | .analyzer => some { settings with analyzer := some path }
  | .supplement => some { settings with supplement := some path }
  | .temporaryDirectory => some { settings with temporaryDirectory := some path }
  | _ => none

/-- The settings with an option and its value, if the value fits. -/
def give? (settings : Settings) (key : Key) (value : Bytes) : Option Settings :=
  match key with
  | .device | .kernel | .define | .compilerOptions =>
    (Utf8.decode? value).bind fun text => settings.giveText text key
  | .optimization => (level? value).map fun level =>
      settings.onOptions fun options => { options with optimization := some level }
  | key => (path? value).bind fun path => settings.givePath path key

end Settings

/-! ## Reading -/

/-- Why the reading ends before the last argument. -/
inductive Halt
  | version
  | help
  | refused
  deriving DecidableEq, Repr

/-- How far the arguments are read. -/
structure Reading where
  settings : Settings := {}
  /-- The options given so far. -/
  given : List Key := []
  /-- An option that waits for its value. -/
  pending : Option Key := none
  /-- Whether only sources follow. -/
  onlySources : Bool := false

namespace Reading

/-- The dash in front of options. -/
def dash : UInt8 := 0x2D

/-- The sign between a long name and its value. -/
def equals : UInt8 := 0x3D

/-- Takes an option into account, unless it was given before and may not be again. -/
def mark (reading : Reading) (key : Key) : Except Halt Reading :=
  if reading.given.contains key && !key.isRepeatable then .error .refused
  else .ok { reading with given := key :: reading.given, pending := none }

/-- Reads an option without value. -/
def flag (reading : Reading) (key : Key) : Except Halt Reading :=
  match key with
  | .version => .error .version
  | .help => .error .help
  | key => (reading.mark key).map fun reading =>
      { reading with settings := reading.settings.flag key }

/-- Reads an option with its value. -/
def value (reading : Reading) (key : Key) (value : Bytes) : Except Halt Reading := do
  let reading ← reading.mark key
  match reading.settings.give? key value with
  | some settings => return { reading with settings := settings }
  | none => throw .refused

/-- Reads a source. -/
def source (reading : Reading) (argument : Bytes) : Except Halt Reading :=
  match reading.settings.addSource? argument with
  | some settings => .ok { reading with settings := settings }
  | none => .error .refused

/-- Reads an option by its long name, with the value behind the equals sign if there is one. -/
def long (reading : Reading) (name : Bytes) (attached : Option Bytes) : Except Halt Reading :=
  match Key.ofLong? name with
  | none => .error .refused
  | some key => match key.takesValue, attached with
    | true, some bytes => reading.value key bytes
    | true, none => .ok { reading with pending := some key }
    | false, some _ => .error .refused
    | false, none => reading.flag key

/-- Reads the letters behind one dash. -/
def short (reading : Reading) : Bytes → Except Halt Reading
  | [] => .ok reading
  | letter :: rest => match Key.ofLetter? letter with
    | none => .error .refused
    | some key =>
      if !key.takesValue then do
        let reading ← reading.flag key
        reading.short rest
      else if rest.isEmpty then .ok { reading with pending := some key }
      else reading.value key (if rest.head? = some equals then rest.tail else rest)

/-- Whether an argument starts with a dash and does not end there. -/
def looksLikeOption (argument : Bytes) : Bool :=
  argument.head? = some dash && 1 < argument.length

/-- Reads one argument. -/
def step (reading : Reading) (argument : Bytes) : Except Halt Reading :=
  match reading.pending with
  | some key =>
    if looksLikeOption argument && !key.allowsDash then .error .refused
    else reading.value key argument
  | none =>
    if reading.onlySources || !looksLikeOption argument then reading.source argument
    else if argument = [dash, dash] then .ok { reading with onlySources := true }
    else if argument.take 2 = [dash, dash] then
      let name := (argument.drop 2).takeWhile (· ≠ equals)
      let rest := (argument.drop 2).dropWhile (· ≠ equals)
      reading.long name (if rest.isEmpty then none else some rest.tail)
    else reading.short argument.tail

end Reading

/-- Reads all arguments; an option that waits for its value at the end refuses them. -/
def read (arguments : List Bytes) : Except Halt Settings := do
  let reading ← arguments.foldlM Reading.step {}
  match reading.pending with
  | some _ => throw .refused
  | none => return reading.settings

end KernelIsa.Command
