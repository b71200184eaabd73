import KernelIsa.Collection.Pieces
import KernelIsa.Text.ControlSequence
import KernelIsa.Text.Basic

/-!
# Notice — what a build tells its user while it runs

A `Notice` is a message of some level.  Its first line is written behind the level and the other
lines are indented (`Notice.lines`); what is written has no control sequences (`Notice.written`).
-/

namespace KernelIsa

/-- How much a notice matters. -/
inductive Level
  | info
  | warning
  | error
  deriving DecidableEq, Repr

/-- A message to the user. -/
structure Notice where
  level : Level
  message : Text
  deriving DecidableEq, Repr

namespace Notice

/-- A notice of progress. -/
def info (message : Text) : Notice := ⟨.info, message⟩

/-- A notice of something doubtful. -/
def warning (message : Text) : Notice := ⟨.warning, message⟩

/-- A notice of a failure. -/
def error (message : Text) : Notice := ⟨.error, message⟩

/-- The label of a level, padded to five characters. -/
def label : Level → Text
  | .info => "INFO ".toList
  | .warning => "WARN ".toList
  | .error => "ERROR".toList

/-- The lines of a notice. -/
def lines (notice : Notice) : List Text :=
  match pieces (· == '\n') notice.message with
  | [] => []
  | first :: rest =>
    ('[' :: label notice.level ++ ']' :: ' ' :: first) :: rest.map fun line => "    ".toList ++ line

/-- A notice as it is written, every line with its end. -/
def written (notice : Notice) : Text := ControlSequence.strip (Text.ofLines notice.lines)

end Notice

end KernelIsa
