import KernelIsa.Listing.Line

/-!
# Listing/Reduction — a fragment trimmed to the code size of its kernel

A disassembler may print bytes behind a kernel as instructions.  `reduce` keeps the lines up to the
first instruction that reaches the code size (`Extent`), drops the label lines that no kept branch
or call names, and takes inline labels and encoding suffixes to their plain forms (`Edit`).
-/

namespace KernelIsa.Reduction

/-- How far the code of a kernel goes among the lines of its body. -/
inductive Extent
  /-- The code ends with the last of the first `count` lines. -/
  | through (count : Nat)
  /-- The code size is not reached. -/
  | whole
  /-- The address on a line cannot be read before the code size is reached. -/
  | unreadable (line : Text)
  deriving DecidableEq, Repr

/-- The extent over one more line in front. -/
def Extent.succ : Extent → Extent
  | .through count => .through (count + 1)
  | extent => extent

/-- The extent of code of `size` bytes; `origin` is the address of the first instruction, if one was
passed.  An instruction reaches as many bytes as lie between the origin and its end, and one below
the origin counts as lying there. -/
def extentFrom (size : Nat) (origin : Option Nat) : List Text → Except Overflow Extent
  | [] => .ok .whole
  | line :: rest =>
    if Line.isComment line then (extentFrom size origin rest).map Extent.succ
    else match Line.location line with
      | .absent => (extentFrom size origin rest).map Extent.succ
      | .unreadable => .ok (.unreadable line)
      | .span address width => do
        let start := origin.getD address
        let reached ← Word.add (address - start) width
        if size ≤ reached then return .through 1
        else (extentFrom size (some start) rest).map Extent.succ

/-- The extent of code of `size` bytes among the lines of a body. -/
def extent (size : Nat) (body : List Text) : Except Overflow Extent := extentFrom size none body

/-- What becomes of a kept line. -/
inductive Edit
  | keep
  | drop
  | replace (line : Text)
  deriving DecidableEq, Repr

/-- The edit of a line when `targets` are the labels that branches and calls name. -/
def edit (targets : List Text) (line : Text) : Edit :=
  match Line.label? line with
  | some label => if targets.contains label then .keep else .drop
  | none => match Line.plainLabel? line with
    | some plain => .replace plain
    | none =>
      if Line.isComment line then .keep
      else match Line.withoutSuffix? line with
        | some stripped => .replace stripped
        | none => .keep

/-- The line that an edit leaves, if any. -/
def Edit.result? (line : Text) : Edit → Option Text
  | .keep => some line
  | .drop => none
  | .replace line => some line

/-- What reducing a fragment gives. -/
inductive Outcome
  /-- The address on a line cannot be read; the fragment stays as it is. -/
  | unreadable (line : Text)
  /-- Nothing was cut or edited. -/
  | unchanged
  | reduced (fragment : Text)
  deriving DecidableEq, Repr

/-- The labels that the branches and calls among some lines name. -/
def targets (lines : List Text) : List Text := lines.filterMap Line.branchTarget?

/-- The outcome for a header and a body of which the first `count` lines are kept. -/
def trim (header body : List Text) (count : Nat) : Outcome :=
  let kept := body.take count
  let named := targets kept
  if kept.length < body.length || kept.any fun line => edit named line ≠ .keep then
    .reduced (Text.ofLines (header ++ kept.filterMap fun line => (edit named line).result? line))
  else .unchanged

/-- Reduces a fragment to code of `size` bytes. -/
def reduce (fragment : Text) (size : Nat) : Except Overflow Outcome := do
  let lines := Text.lines fragment
  let header := lines.take Fragment.headerLines
  let body := lines.drop Fragment.headerLines
  match ← extent size body with
  | .unreadable line => return .unreadable line
  | .whole => return trim header body body.length
  | .through count => return trim header body count

/-- The new text of a fragment, if there is one. -/
def Outcome.reduced? : Outcome → Option Text
  | .reduced fragment => some fragment
  | _ => none

end KernelIsa.Reduction
