import KernelIsa.Text.Basic

/-!
# Text/Utf8 — texts as bytes, and bytes as texts

`encode` writes a text in UTF-8.  Reading goes byte by byte: a lead byte announces how many bytes
follow and narrows the range of the next one.  Where a byte falls outside the range, what was read
since the lead byte counts as one fault, and reading goes on at that byte.  `decode?` refuses a text
with a fault; `decodeLossy` puts U+FFFD for each.
-/

namespace KernelIsa

/-- The bytes of a file, a path or a program's output. -/
abbrev Bytes := List UInt8

namespace Utf8

/-- The bytes of a text in UTF-8. -/
def encode (t : Text) : Bytes := t.flatMap String.utf8EncodeChar

/-- A character of which `missing + 1` bytes are still to come; the next one lies between `low` and
`high`. -/
structure Pending where
  missing : Nat
  value : Nat
  low : UInt8
  high : UInt8

/-- What a lead byte announces: a whole character, more bytes, or nothing well-formed. -/
def lead (b : UInt8) : Option (Char ⊕ Pending) :=
  let n := b.toNat
  if n < 0x80 then some (.inl (Char.ofNat n))
  else if n < 0xC2 then none
  else if n < 0xE0 then some (.inr ⟨0, n - 0xC0, 0x80, 0xBF⟩)
  else if n = 0xE0 then some (.inr ⟨1, 0, 0xA0, 0xBF⟩)
  else if n = 0xED then some (.inr ⟨1, 0xD, 0x80, 0x9F⟩)
  else if n < 0xF0 then some (.inr ⟨1, n - 0xE0, 0x80, 0xBF⟩)
  else if n = 0xF0 then some (.inr ⟨2, 0, 0x90, 0xBF⟩)
  else if n < 0xF4 then some (.inr ⟨2, n - 0xF0, 0x80, 0xBF⟩)
  else if n = 0xF4 then some (.inr ⟨2, 4, 0x80, 0x8F⟩)
  else none

/-- The characters of a byte sequence, `none` for each fault; `pending` is a character begun
before. -/
def scan : Option Pending → Bytes → List (Option Char)
  | none, [] => []
  | some _, [] => [none]
  | pending, b :: bytes =>
    let fresh := fun (_ : Unit) => match lead b with
      | some (.inl c) => some c :: scan none bytes
      | some (.inr p) => scan (some p) bytes
      | none => none :: scan none bytes
    match pending with
    | none => fresh ()
    | some p =>
      if p.low ≤ b && b ≤ p.high then
        let value := p.value * 64 + (b.toNat - 0x80)
        match p.missing with
        | 0 => some (Char.ofNat value) :: scan none bytes
        | missing + 1 => scan (some ⟨missing, value, 0x80, 0xBF⟩) bytes
      else none :: fresh ()

/-- The text of a byte sequence that is well-formed UTF-8. -/
def decode? (bytes : Bytes) : Option Text := (scan none bytes).mapM id

/-- The text of any byte sequence, with U+FFFD for each fault. -/
def decodeLossy (bytes : Bytes) : Text := (scan none bytes).map fun c => c.getD '\uFFFD'

end Utf8

end KernelIsa
