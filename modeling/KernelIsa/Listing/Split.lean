import KernelIsa.Collection.Keyed
import KernelIsa.Listing.Line
import KernelIsa.Text.Word

/-!
# Listing/Split — one disassembly, one fragment per kernel

A disassembler writes a label as `0000000000001100 <name>:`.  `LabelAddress.strip` turns that into
`name:` all over a text: `dropAddresses` takes away each run of ASCII letters and digits that is
directly followed by ` <`, together with the ` <`, and `dropClosing` takes away each `>` in front of
a colon.

A disassembly is made of blocks that a blank line separates; the first label line of a block names
it.  `markers` finds the blocks that open with the name of a listed kernel, `cut` cuts the text
there, and `split` puts a header on each piece and files it under its kernel.
-/

/-! ## Labels without their addresses -/

namespace KernelIsa.LabelAddress

/-- The text without its label addresses; `run` holds, in reverse, the letters and digits read just
before it. -/
def dropAddressesFrom (run : Text) : Text → Text
  | [] => run.reverse
  | ' ' :: '<' :: t =>
    if run.isEmpty then ' ' :: '<' :: dropAddressesFrom [] t else dropAddressesFrom [] t
  | c :: t =>
    if c.isAlphanum then dropAddressesFrom (c :: run) t
    else run.reverse ++ c :: dropAddressesFrom [] t

/-- The text without the runs of ASCII letters and digits in front of ` <`, and without these
` <`. -/
def dropAddresses (t : Text) : Text := dropAddressesFrom [] t

/-- The text without the `>` that stand directly in front of a colon. -/
def dropClosing : Text → Text
  | [] => []
  | '>' :: ':' :: t => ':' :: dropClosing t
  | c :: t => c :: dropClosing t

/-- The text with every `address <label>:` written as `label:`. -/
def strip (t : Text) : Text := dropClosing (dropAddresses t)

end KernelIsa.LabelAddress

/-! ## Cutting a disassembly -/

namespace KernelIsa.Split

/-- Where a kernel starts: the byte offset of its label line, and the byte length of its name. -/
structure Marker where
  offset : Nat
  nameLength : Nat
  deriving DecidableEq, Repr

/-- What is awaited on the next line. -/
inductive Awaited
  /-- The label line of a block. -/
  | label
  /-- The blank line behind a block whose label line was seen. -/
  | blank
  deriving DecidableEq, Repr

/-- The markers among ended lines that start at a byte offset. -/
def markersFrom (kernels : List Text) : Awaited → Nat → List Text → List Marker
  | _, _, [] => []
  | awaited, offset, line :: rest =>
    let next := offset + Text.byteLength line + 1
    match awaited with
    | .blank => markersFrom kernels (if line.isEmpty then .label else .blank) next rest
    | .label => match Text.dropEnding? [':'] line with
      | none => markersFrom kernels .label next rest
      | some name =>
        let found := markersFrom kernels .blank next rest
        if kernels.contains name then ⟨offset, Text.byteLength name⟩ :: found else found

/-- The markers of the listed kernels, in the order of the text. -/
def markers (text : Text) (kernels : List Text) : List Marker :=
  markersFrom kernels .label 0 (Text.terminated text).1

/-- Why a text cannot be cut at some markers. -/
inductive CutFailure
  /-- A marker lies behind the next one or behind the text, or inside a character. -/
  | disorder
  /-- The end of a name is no 64-bit offset. -/
  | overflow
  deriving DecidableEq, Repr

/-- The name at a marker and the text from it up to the byte offset `stop`. -/
def piece (text : Text) (marker : Marker) (stop : Nat) : Except CutFailure (Text × Text) :=
  if stop < marker.offset || Text.byteLength text < stop then .error .disorder
  else match Word.add marker.offset marker.nameLength with
    | .error _ => .error .overflow
    | .ok nameEnd =>
      match Text.slice? marker.offset nameEnd text, Text.slice? marker.offset stop text with
      | some name, some listing => .ok (name, listing)
      | _, _ => .error .disorder

/-- The names and pieces of a text, each piece up to the line break before the next marker. -/
def cut (text : Text) : List Marker → Except CutFailure (List (Text × Text))
  | [] => .ok []
  | [last] => (piece text last (Text.byteLength text)).map fun p => [p]
  | marker :: next :: rest =>
    if next.offset = 0 then .error .disorder
    else do
      let p ← piece text marker (next.offset - 1)
      let ps ← cut text (next :: rest)
      return p :: ps

/-- The fragments of a disassembly by kernel, and how many were cut out of how many listed
kernels. -/
structure Fragments where
  byKernel : Keyed Text Text
  found : Nat
  listed : Nat

/-- The fragments of the listed kernels in a disassembly; of two fragments of one kernel the later
one stands. -/
def split (disassembly : Text) (kernels : List Text) : Except CutFailure Fragments := do
  let text := LabelAddress.strip disassembly
  let pieces ← cut text (markers text kernels)
  return {
    byKernel := Keyed.ofList (pieces.map fun p => (p.1, Fragment.withHeader p.1 p.2))
    found := pieces.length
    listed := kernels.length }

end KernelIsa.Split
