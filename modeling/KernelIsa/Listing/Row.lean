import KernelIsa.Listing.Line

/-!
# Listing/Row — a fragment as a table of instructions

Each instruction or label of a body is a `Row` of four fields; comments and blank lines are none
(`Row.ofLine?`).  `table` writes the rows of a fragment as comma-separated values under a line of
column names: a field with a comma, a quote or a line feed stands in quotes, with its own quotes
doubled.
-/

namespace KernelIsa

/-- An instruction, or a label in the place of the opcode. -/
structure Row where
  address : Text
  opcode : Text
  operands : Text
  encoding : Text
  deriving DecidableEq, Repr

namespace Row

/-- The row of a label. -/
def ofLabel (label : Text) : Row := ⟨[], label, [], []⟩

/-- The row of an instruction, from its code and the address comment behind it. -/
def ofInstruction (code : Text) (comment : Option Text) : Row :=
  let location := (comment.bind (Text.splitAround? [':'])).getD ([], [])
  { address := Text.trim location.1
    opcode := Text.firstToken code
    operands := Text.trim (Text.afterFirstToken code)
    encoding := Text.trim location.2 }

/-- The row of a line. -/
def ofLine? (line : Text) : Option Row :=
  let trimmed := Text.trim line
  if trimmed.isEmpty || Line.isComment trimmed then none
  else match Text.splitAround? Line.addressMark trimmed with
    | some (code, comment) => some (ofInstruction (Text.trim code) (some comment))
    | none =>
      if trimmed.getLast? = some ':' then some (ofLabel (Text.lastToken trimmed))
      else some (ofInstruction trimmed none)

/-! ## Writing -/

/-- A field with its quotes doubled. -/
def doubleQuotes : Text → Text
  | [] => []
  | c :: t => if c = '"' then '"' :: '"' :: doubleQuotes t else c :: doubleQuotes t

/-- Whether a field has to stand in quotes. -/
def needsQuotes (field : Text) : Bool := field.any fun c => c = ',' || c = '"' || c = '\n'

/-- A field as it is written. -/
def writeField (field : Text) : Text :=
  if needsQuotes field then '"' :: doubleQuotes field ++ ['"'] else field

/-- The fields of a row, in the order of the columns. -/
def fields (row : Row) : List Text := [row.address, row.opcode, row.operands, row.encoding]

/-- A row as it is written, without the line end. -/
def write (row : Row) : Text := List.intercalate [','] (row.fields.map writeField)

/-- The column names. -/
def columns : Text := "Address,Opcode,Operands,Encoding".toList

/-- The rows of a fragment's body. -/
def ofFragment (fragment : Text) : List Row :=
  (Text.lines (Fragment.body fragment)).filterMap ofLine?

/-- The table of a fragment. -/
def table (fragment : Text) : Text := Text.ofLines (columns :: (ofFragment fragment).map write)

end Row

end KernelIsa
