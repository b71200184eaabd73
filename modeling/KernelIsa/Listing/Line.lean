import KernelIsa.Text.Word

/-!
# Listing/Line — one line of a disassembly, and the listing of one kernel

An instruction stands on its line as

    s_cbranch_scc1 BB0_3      // 000000001110: BF85001C

with its address between `//` and `:` and its encoded bytes behind.  A label line is `name:`.  The
functions here tell what a line is (`isComment`, `label?`, `branchTarget?`, `location`) and give its
plain forms (`plainLabel?`, `withoutSuffix?`).

The listing of a kernel is a fragment: a header of two comment lines that name the kernel, followed
by the kernel's lines, the body.
-/

namespace KernelIsa.Line

/-- The mark in front of an instruction's address. -/
def addressMark : Text := ['/', '/']

/-- A comment line starts with a semicolon. -/
def isComment (line : Text) : Bool := line.head? = some ';'

/-! ## Labels and branches -/

/-- The name on a label line: everything before the only colon, which ends the line; it is not empty
and has no blank. -/
def label? (line : Text) : Option Text :=
  let name := line.takeWhile (· ≠ ':')
  if line.dropWhile (· ≠ ':') = [':'] && !name.isEmpty && !name.any Text.isBlank then some name
  else none

/-- Whether a mnemonic is that of a branch or a call. -/
def isJump (mnemonic : Text) : Bool :=
  Text.hasMark "branch".toList mnemonic || Text.hasMark "call".toList mnemonic

/-- The first operand of a branch or call: the token behind the mnemonic, unless it opens the
address comment. -/
def branchTarget? (line : Text) : Option Text :=
  let instruction := Text.trimStart line
  let operands := Text.afterFirstToken instruction
  let operand := Text.trimStart operands
  if operands.isEmpty || !isJump (Text.firstToken instruction) || operand.isEmpty
    || Text.startsWith addressMark operand then none
  else some (Text.firstToken operand)

/-- A line `address <label>:` with the angle brackets taken off; what follows the label is dropped,
as is what stands between the first space and the bracket. -/
def plainLabel? (line : Text) : Option Text :=
  match Text.splitAround? [' ', '<'] line with
  | none => none
  | some (before, after) =>
    if before.isEmpty then none
    else (Text.splitAround? ['>', ':'] after).map fun parts =>
      line.takeWhile (· ≠ ' ') ++ ' ' :: parts.1 ++ [':']

/-! ## Encoding suffixes -/

/-- The endings of a mnemonic that name its encoding. -/
def encodingSuffixes : List Text := ["_e32".toList, "_e64".toList]

/-- A mnemonic without its encoding suffix, if it has one. -/
def stem? (mnemonic : Text) : Option Text :=
  encodingSuffixes.findSome? fun suffix => Text.dropEnding? suffix mnemonic

/-- The line with the encoding suffix of its mnemonic taken off and as many spaces put in front of
the address comment, so that the comment stays in its column. -/
def withoutSuffix? (line : Text) : Option Text :=
  let indent := line.takeWhile Text.isBlank
  let instruction := line.dropWhile Text.isBlank
  let mnemonic := instruction.takeWhile (· ≠ ' ')
  let operands := instruction.dropWhile (· ≠ ' ')
  if operands.isEmpty then none
  else (stem? mnemonic).map fun stem =>
    indent ++ stem ++ match Text.splitAround? addressMark operands with
      | none => operands
      | some (before, after) =>
        before ++ List.replicate (mnemonic.length - stem.length) ' ' ++ addressMark ++ after

/-! ## Addresses -/

/-- Where an instruction lies, as its line tells. -/
inductive Location
  /-- The line has no address comment. -/
  | absent
  /-- The address comment holds no address of 64 bits. -/
  | unreadable
  /-- The instruction takes `width` bytes from `address` on. -/
  | span (address width : Nat)
  deriving DecidableEq, Repr

/-- An encoding text of at least this many bytes, its colon included, is that of a wide
instruction. -/
def wideEncoding : Nat := 16

/-- The location that the address comment of a line gives. -/
def location (line : Text) : Location :=
  match Text.splitAround? addressMark line with
  | none => .absent
  | some (_, comment) => match Text.splitAround? [':'] comment with
    | none => .absent
    | some (address, encoding) => match Word.read? 16 (Text.trim address) with
      | none => .unreadable
      | some n => .span n (if 1 + Text.byteLength encoding < wideEncoding then 4 else 8)

end KernelIsa.Line

/-! ## The listing of one kernel -/

namespace KernelIsa.Fragment

/-- The number of lines in a header. -/
def headerLines : Nat := 2

/-- The fragment of a kernel with the given body. -/
def withHeader (kernel body : Text) : Text :=
  ';' :: ' ' :: kernel ++ "\n; Disassembly for ".toList ++ kernel ++ '\n' :: body

/-- The text behind the header; a text of fewer lines has an empty body. -/
def body (fragment : Text) : Text :=
  ((Text.afterLineFeed? fragment).bind Text.afterLineFeed?).getD []

end KernelIsa.Fragment
