import KernelIsa.Collection.Pieces
import KernelIsa.Text.Utf8

/-!
# Artifact/Path — paths, taken apart into components

A path is a sequence of bytes.  It opens with a `Lead` (the root, a single dot, or neither), and the
slashes behind that cut it into segments; empty segments and inner dots say nothing.  What is left
are the `components`, and two paths with the same components name the same file.
-/

namespace KernelIsa

/-- The bytes of a path. -/
structure Path where
  bytes : Bytes
  deriving DecidableEq, Repr

namespace Path

/-- The path that a text spells. -/
def ofText (t : Text) : Path := ⟨Utf8.encode t⟩

/-- The path as it is shown in messages. -/
def display (p : Path) : Text := Utf8.decodeLossy p.bytes

/-- The separator of segments. -/
def slash : UInt8 := 0x2F

/-- The mark in front of an extension. -/
def dot : UInt8 := 0x2E

/-! ## Segments and components -/

/-- How a path opens. -/
inductive Lead
  | root
  | here
  | plain
  deriving DecidableEq, Repr

/-- The bytes of a lead. -/
def Lead.bytes : Lead → Bytes
  | .root => [slash]
  | .here => [dot]
  | .plain => []

/-- The lead of a path. -/
def lead (p : Path) : Lead :=
  if p.bytes.head? = some slash then .root
  else if p.bytes.head? = some dot && (p.bytes.tail.isEmpty || p.bytes.tail.head? = some slash) then
    .here
  else .plain

/-- Everything between the slashes behind the lead. -/
def segments (p : Path) : List Bytes := pieces (· == slash) (p.bytes.drop p.lead.bytes.length)

/-- The path of a lead and segments. -/
def ofSegments (lead : Lead) (segments : List Bytes) : Path :=
  ⟨lead.bytes ++ joined slash segments⟩

/-- Whether a segment says nothing. -/
def isIdle (segment : Bytes) : Bool := segment.isEmpty || segment == [dot]

/-- The segments up to the last one that says something. -/
def dropIdleEnd (segments : List Bytes) : List Bytes := (segments.reverse.dropWhile isIdle).reverse

/-- A step of a path. -/
inductive Component
  | root
  | here
  | up
  | name (bytes : Bytes)
  deriving DecidableEq, Repr

/-- The step that a segment stands for. -/
def Component.ofSegment (segment : Bytes) : Component :=
  if segment = [dot, dot] then .up else .name segment

/-- The step that a lead stands for, if any. -/
def Lead.components : Lead → List Component
  | .root => [.root]
  | .here => [.here]
  | .plain => []

/-- The steps of a path. -/
def components (p : Path) : List Component :=
  p.lead.components ++ (p.segments.filter fun s => !isIdle s).map Component.ofSegment

/-- Whether the path starts at the root. -/
def isAbsolute (p : Path) : Bool := p.lead = .root

/-! ## Order -/

/-- The place of a component among the kinds of components. -/
def Component.rank : Component → Nat
  | .root => 0
  | .here => 1
  | .up => 2
  | .name _ => 3

/-- The name of a component, empty for the others. -/
def Component.bytes : Component → Bytes
  | .name bytes => bytes
  | _ => []

instance : Ord Component where
  compare a b := (compare a.rank b.rank).then (compare a.bytes b.bytes)

/-- The order of two paths, component by component. -/
def order (p q : Path) : Ordering := compare p.components q.components

/-! ## Names and directories -/

/-- The last component, if it is a name. -/
def fileName? (p : Path) : Option Bytes :=
  (dropIdleEnd p.segments).getLast?.filter fun segment => segment ≠ [dot, dot]

/-- A name cut at its last dot; a dot in front does not count. -/
def splitName (name : Bytes) : Bytes × Option Bytes :=
  let opening := (name.reverse.dropWhile (· ≠ dot)).reverse
  if opening.length ≤ 1 then (name, none)
  else (opening.dropLast, some (name.drop opening.length))

/-- The name of the file without its extension. -/
def stem? (p : Path) : Option Bytes := p.fileName?.map fun name => (splitName name).1

/-- The extension of the file's name. -/
def extension? (p : Path) : Option Bytes := p.fileName?.bind fun name => (splitName name).2

/-- The path up to its last component. -/
def parent? (p : Path) : Option Path :=
  let kept := dropIdleEnd p.segments
  if !kept.isEmpty then some (ofSegments p.lead (dropIdleEnd kept.dropLast))
  else if p.lead = .here then some ⟨[]⟩
  else none

/-- The path `q` as seen from the directory `p`; an absolute `q` stays as it is. -/
def join (p q : Path) : Path :=
  if q.isAbsolute then q
  else if p.bytes.isEmpty || p.bytes.getLast? = some slash then ⟨p.bytes ++ q.bytes⟩
  else ⟨p.bytes ++ slash :: q.bytes⟩

/-- The path less the bytes of its extension, which are taken off at the end. -/
def withoutExtension (p : Path) : Path :=
  match p.extension? with
  | none => p
  | some extension => ⟨p.bytes.take (p.bytes.length - extension.length)⟩

/-- The path with an extension in place of the one it has, if any.  What has no file name once the
old extension is gone, such as `..`, gets no new one. -/
def withExtension (p : Path) (extension : Text) : Path :=
  let bare := p.withoutExtension
  match bare.stem? with
  | none => bare
  | some stem =>
    let file := stem ++ dot :: Utf8.encode extension
    ofSegments bare.lead ((dropIdleEnd bare.segments).dropLast ++ [file])

end Path

end KernelIsa
