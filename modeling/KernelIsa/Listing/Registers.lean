import KernelIsa.Device.Table
import KernelIsa.Listing.Line

/-!
# Listing/Registers — the registers that a fragment uses, beside what its device has

Operands name scalar registers `s7` and vector registers `v7`, or ranges `s[4:7]`.  A fragment uses
as many registers of a class as the highest index that it names, plus one (`usage`).
`Statistics.table` writes the usage as one row of comma-separated values under a line of column
names; what is not known is written `N/A`.
-/

namespace KernelIsa.Registers

/-- The two classes of registers. -/
inductive RegisterClass
  | scalar
  | vector
  deriving DecidableEq, Repr

/-- A register operand: its class and its highest index. -/
structure Operand where
  kind : RegisterClass
  index : Nat
  deriving DecidableEq, Repr

/-- The class that a letter stands for. -/
def RegisterClass.ofLetter? : Char → Option RegisterClass
  | 's' => some .scalar
  | 'v' => some .vector
  | _ => none

/-- Signs that may stand around a register. -/
def isSign (c : Char) : Bool := c = '-' || c = '|' || c = '!'

/-- What stands in square brackets. -/
def bracketed? (t : Text) : Option Text := (Text.dropLead? ['['] t).bind (Text.dropEnding? [']'])

/-- The highest index behind the letter of a register. -/
def index? (t : Text) : Option Nat :=
  match bracketed? t with
  | some range =>
    (Text.splitAround? [':'] range).bind fun bounds => Word.read? 10 (Text.trim bounds.2)
  | none => if t.isEmpty || t.any fun c => !c.isDigit then none else Word.read? 10 t

/-- The register that an operand names. -/
def operand? (token : Text) : Option Operand :=
  match Text.dropEndWhile isSign (token.dropWhile isSign) with
  | [] => none
  | c :: t => (RegisterClass.ofLetter? c).bind fun kind => (index? t).map fun index => ⟨kind, index⟩

/-- The tokens of an instruction between blanks and commas; none if the line is blank, a comment, a
label, or has no mnemonic. -/
def tokens? (line : Text) : Option (List Text) :=
  let trimmed := Text.trim line
  if trimmed.isEmpty || Line.isComment trimmed || (Line.label? trimmed).isSome then none
  else
    let code := ((Text.splitAround? Line.addressMark trimmed).map Prod.fst).getD trimmed
    match pieces (fun c => Text.isBlank c || c = ',') code with
    | [] => none
    | mnemonic :: operands => if mnemonic.isEmpty then none else some operands

/-- What a fragment uses. -/
structure Usage where
  scalars : Nat
  vectors : Nat
  instructions : Nat
  deriving DecidableEq, Repr

namespace Usage

/-- The usage of an empty body. -/
def none : Usage := ⟨0, 0, 0⟩

/-- The usage with one more register named. -/
def note (usage : Usage) (operand : Operand) : Except Overflow Usage := do
  let count ← Word.add operand.index 1
  match operand.kind with
  | .scalar => return { usage with scalars := max usage.scalars count }
  | .vector => return { usage with vectors := max usage.vectors count }

/-- The usage with one more line read. -/
def noteLine (usage : Usage) (line : Text) : Except Overflow Usage :=
  match tokens? line with
  | .none => .ok usage
  | some tokens => (tokens.filterMap operand?).foldlM note
      { usage with instructions := usage.instructions + 1 }

end Usage

/-- The usage of a fragment. -/
def usage (fragment : Text) : Except Overflow Usage :=
  (Text.lines (Fragment.body fragment)).foldlM Usage.noteLine Usage.none

end KernelIsa.Registers

/-! ## Statistics -/

namespace KernelIsa.Statistics

/-- The column names. -/
def columns : Text :=
  ("DEVICE,KERNEL,CODE_SIZE,INSTRUCTIONS,USED_SGPRS,AVAILABLE_SGPRS,USED_VGPRS,AVAILABLE_VGPRS,"
    ++ "AVAILABLE_LDS_BYTES").toList

/-- A number, or `N/A`. -/
def numberOr : Option Nat → Text
  | some n => decimal n
  | none => "N/A".toList

/-- The row of a kernel. -/
def row (device kernel : Text) (codeSize : Option Nat) (usage : Registers.Usage) : List Text :=
  let budget := Budget.of? device
  [device, kernel, numberOr codeSize, decimal usage.instructions, decimal usage.scalars,
    numberOr (budget.map Budget.scalars), decimal usage.vectors,
    numberOr (budget.map Budget.vectors), numberOr (budget.map Budget.localBytes)]

/-- The table of a kernel with the given fragment. -/
def table (device kernel : Text) (codeSize : Option Nat) (fragment : Text) :
    Except Overflow Text := do
  let usage ← Registers.usage fragment
  return Text.ofLines [columns, List.intercalate [','] (row device kernel codeSize usage)]

end KernelIsa.Statistics
