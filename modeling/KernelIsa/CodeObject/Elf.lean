import KernelIsa.CodeObject.Symbol
import KernelIsa.Text.Utf8
import KernelIsa.Text.Word

/-!
# CodeObject/Elf — the symbols of an ELF file

An ELF file opens with a header that points to a table of segments and one of sections; one section
holds the symbols and links to another with their names.  `Elf.symbols` follows these links, in the
layout of 32 or 64 bits and in either byte order, and tells the first `Defect` it meets, also among
the segments and the relocations.
-/

namespace KernelIsa.Elf

/-- Why the symbols of a file cannot be read. -/
inductive Defect
  | noMagic
  | unknownMagic
  | archive
  | shortHeader
  | unsupported
  | segmentCount
  | segmentEntrySize
  | segmentTable
  | sectionEntrySize
  | firstSection
  | sectionTable
  | noNameIndex
  | nameIndex
  | nameSection
  | symbolTable
  | sectionIndex
  | stringKind
  | stringRange
  | extendedIndices
  | relocationTarget
  | relocationOfRelocations
  deriving DecidableEq, Repr

/-- The wording of a defect. -/
def Defect.message : Defect → String
  | .noMagic => "Could not read file magic"
  | .unknownMagic => "Unknown file magic"
  | .archive => "Unsupported file format"
  | .shortHeader => "Invalid ELF header size or alignment"
  | .unsupported => "Unsupported ELF header"
  | .segmentCount => "Missing ELF section headers for e_phnum overflow"
  | .segmentEntrySize => "Invalid ELF program header entry size"
  | .segmentTable => "Invalid ELF program header size or alignment"
  | .sectionEntrySize => "Invalid ELF section header entry size"
  | .firstSection => "Invalid ELF section header offset or size"
  | .sectionTable => "Invalid ELF section header offset/size/alignment"
  | .noNameIndex => "Missing ELF e_shstrndx"
  | .nameIndex => "Invalid ELF e_shstrndx"
  | .nameSection => "Invalid ELF shstrtab size"
  | .symbolTable => "Invalid ELF symbol table data"
  | .sectionIndex => "Invalid ELF section index"
  | .stringKind => "Invalid ELF string section type"
  | .stringRange => "Invalid ELF string section offset or size"
  | .extendedIndices => "Invalid ELF symtab_shndx data"
  | .relocationTarget => "Invalid ELF sh_info for relocation section"
  | .relocationOfRelocations => "Unsupported ELF sh_info for relocation section"

/-! ## Numbers in bytes -/

/-- Which byte of a number comes first. -/
inductive ByteOrder
  | little
  | big
  deriving DecidableEq, Repr

/-- A field: its offset and its number of bytes. -/
structure Field where
  offset : Nat
  width : Nat

/-- The number that bytes denote. -/
def ByteOrder.number : ByteOrder → Bytes → Nat
  | .little, bytes => bytes.foldr (fun b n => n * 256 + b.toNat) 0
  | .big, bytes => bytes.foldl (fun n b => n * 256 + b.toNat) 0

/-- The bytes of a range. -/
def range (bytes : Bytes) (offset size : Nat) : Bytes := (bytes.drop offset).take size

/-- The bytes of a range, if it lies in the file; an empty range may lie anywhere. -/
def range? (bytes : Bytes) (offset size : Nat) : Option Bytes :=
  if size = 0 then some []
  else if offset + size ≤ bytes.length then some (range bytes offset size)
  else none

/-- The bytes of a range that holds whole entries of one width. -/
def table? (bytes : Bytes) (width offset size : Nat) : Option Bytes :=
  if size % width = 0 then range? bytes offset size else none

/-- The number in a field. -/
def Field.read (field : Field) (order : ByteOrder) (bytes : Bytes) : Nat :=
  order.number (range bytes field.offset field.width)

/-! ## Layouts -/

/-- The sizes of the tables' entries and the places of the fields that are read. -/
structure Layout where
  headerSize : Nat
  segmentOffset : Field
  segmentEntrySize : Field
  segmentCount : Field
  segmentSize : Nat
  sectionOffset : Field
  sectionEntrySize : Field
  sectionCount : Field
  nameIndex : Field
  sectionSize : Nat
  kind : Field
  offset : Field
  size : Field
  link : Field
  info : Field
  symbolSize : Nat
  symbolName : Field
  symbolInfo : Field
  symbolSection : Field
  symbolExtent : Field

/-- The layout of 32 bits. -/
def narrow : Layout where
  headerSize := 52
  segmentOffset := ⟨28, 4⟩
  segmentEntrySize := ⟨42, 2⟩
  segmentCount := ⟨44, 2⟩
  segmentSize := 32
  sectionOffset := ⟨32, 4⟩
  sectionEntrySize := ⟨46, 2⟩
  sectionCount := ⟨48, 2⟩
  nameIndex := ⟨50, 2⟩
  sectionSize := 40
  kind := ⟨4, 4⟩
  offset := ⟨16, 4⟩
  size := ⟨20, 4⟩
  link := ⟨24, 4⟩
  info := ⟨28, 4⟩
  symbolSize := 16
  symbolName := ⟨0, 4⟩
  symbolInfo := ⟨12, 1⟩
  symbolSection := ⟨14, 2⟩
  symbolExtent := ⟨8, 4⟩

/-- The layout of 64 bits. -/
def wide : Layout where
  headerSize := 64
  segmentOffset := ⟨32, 8⟩
  segmentEntrySize := ⟨54, 2⟩
  segmentCount := ⟨56, 2⟩
  segmentSize := 56
  sectionOffset := ⟨40, 8⟩
  sectionEntrySize := ⟨58, 2⟩
  sectionCount := ⟨60, 2⟩
  nameIndex := ⟨62, 2⟩
  sectionSize := 64
  kind := ⟨4, 4⟩
  offset := ⟨24, 8⟩
  size := ⟨32, 8⟩
  link := ⟨40, 4⟩
  info := ⟨44, 4⟩
  symbolSize := 24
  symbolName := ⟨0, 4⟩
  symbolInfo := ⟨4, 1⟩
  symbolSection := ⟨6, 2⟩
  symbolExtent := ⟨16, 8⟩

/-- A file whose header is in order. -/
structure File where
  bytes : Bytes
  order : ByteOrder
  layout : Layout

/-- What starts an archive, with members or with links to them. -/
def archiveMagics : List Bytes := [Utf8.encode "!<arch>\n".toList, Utf8.encode "!<thin>\n".toList]

/-- The layout that the first bytes announce. -/
def layout (bytes : Bytes) : Except Defect Layout :=
  if bytes.length < 16 then .error .noMagic
  else if archiveMagics.contains (bytes.take 8) then .error .archive
  else if bytes.take 5 = [0x7F, 0x45, 0x4C, 0x46, 1] then .ok narrow
  else if bytes.take 5 = [0x7F, 0x45, 0x4C, 0x46, 2] then .ok wide
  else .error .unknownMagic

/-- The byte order of a header; the version behind it has to be 1. -/
def byteOrder? (bytes : Bytes) : Option ByteOrder :=
  match (bytes.drop 5).take 2 with
  | [1, 1] => some .little
  | [2, 1] => some .big
  | _ => none

/-- The file of some bytes. -/
def file (bytes : Bytes) : Except Defect File := do
  let layout ← layout bytes
  if bytes.length < layout.headerSize then throw .shortHeader
  match byteOrder? bytes with
  | none => throw .unsupported
  | some order => return ⟨bytes, order, layout⟩

/-! ## Sections -/

/-- A section: its kind, its place in the file, and the sections that it refers to. -/
structure Section where
  kind : Nat
  offset : Nat
  size : Nat
  link : Nat
  info : Nat
  deriving DecidableEq, Repr

/-- The kind of a symbol table. -/
def symbolKind : Nat := 2

/-- The kind of a table of names. -/
def nameKind : Nat := 3

/-- The kinds of sections with relocations. -/
def relocationKinds : List Nat := [4, 9, 0x40000014]

/-- The kind of a section without bytes in the file. -/
def emptyKind : Nat := 8

/-- The kind of the symbol table of the dynamic linker. -/
def dynamicKind : Nat := 11

/-- The kind of a table of section numbers for the symbols of another table. -/
def extendedKind : Nat := 18

/-- The section of an entry of the section table. -/
def sectionOf (file : File) (entry : Bytes) : Section where
  kind := file.layout.kind.read file.order entry
  offset := file.layout.offset.read file.order entry
  size := file.layout.size.read file.order entry
  link := file.layout.link.read file.order entry
  info := file.layout.info.read file.order entry

/-- Bytes cut into `count` entries of one size. -/
def entries (size : Nat) : Nat → Bytes → List Bytes
  | 0, _ => []
  | count + 1, bytes => bytes.take size :: entries size count (bytes.drop size)

/-- A field of the file's header. -/
def File.header (file : File) (field : Layout → Field) : Nat :=
  (field file.layout).read file.order file.bytes

/-- The first section of a file that has a section table. -/
def firstSection (file : File) : Except Defect Section :=
  if file.header Layout.sectionEntrySize ≠ file.layout.sectionSize then .error .sectionEntrySize
  else match range? file.bytes (file.header Layout.sectionOffset) file.layout.sectionSize with
    | some entry => .ok (sectionOf file entry)
    | none => .error .firstSection

/-- Whether the table of segments lies in the file.  The count 0xFFFF stands for the one in the
first section. -/
def checkSegments (file : File) : Except Defect Unit := do
  let offset := file.header Layout.segmentOffset
  if offset = 0 then return
  let stated := file.header Layout.segmentCount
  let count ←
    if stated ≠ 0xFFFF then pure stated
    else if file.header Layout.sectionOffset = 0 then throw .segmentCount
    else (firstSection file).map Section.info
  if count = 0 then return
  if file.header Layout.segmentEntrySize ≠ file.layout.segmentSize then throw .segmentEntrySize
  if (range? file.bytes offset (count * file.layout.segmentSize)).isNone then throw .segmentTable

/-- The sections of a file.  A count of zero in the header stands for the count in the first
section. -/
def sections (file : File) : Except Defect (List Section) := do
  let offset := file.header Layout.sectionOffset
  if offset = 0 then return []
  if file.header Layout.sectionEntrySize ≠ file.layout.sectionSize then throw .sectionEntrySize
  let stated := file.header Layout.sectionCount
  let count ← if stated = 0 then (firstSection file).map Section.size else pure stated
  if count = 0 then return []
  match range? file.bytes offset (count * file.layout.sectionSize) with
  | none => throw .sectionTable
  | some table => return (entries file.layout.sectionSize count table).map (sectionOf file)

/-- Whether the section with the sections' names can be found, as a file with sections has to allow.
The index 0xFFFF stands for the link of the first section. -/
def checkNames (file : File) (sections : List Section) : Except Defect Unit := do
  if sections.isEmpty then return
  let stated := file.header Layout.nameIndex
  let index ← if stated = 0xFFFF then (firstSection file).map Section.link else pure stated
  if index = 0 then throw .noNameIndex
  match sections[index]? with
  | none => throw .nameIndex
  | some names =>
    if names.kind ≠ emptyKind && Word.limit ≤ names.offset + names.size then throw .nameSection

/-! ## Symbols -/

/-- The name at an offset of a table of names: the bytes up to the next zero, which has to come
before the table's end. -/
def name? (names : Bytes) (offset : Nat) : Option Text :=
  let rest := names.drop offset
  if rest.contains 0 then Utf8.decode? (rest.takeWhile (· ≠ 0)) else none

/-- The table of names that a symbol table refers to, if it lies in the file; a link of zero stands
for none. -/
def nameTable (file : File) (sections : List Section) (link : Nat) :
    Except Defect (Option Bytes) :=
  if link = 0 then .ok none
  else match sections[link]? with
    | none => .error .sectionIndex
    | some names =>
      if names.kind ≠ nameKind then .error .stringKind
      else if Word.limit ≤ names.offset + names.size then .error .stringRange
      else .ok (range? file.bytes names.offset names.size)

/-- Whether a symbol belongs to a section and is code, data, or of no type but with a size. -/
def isDefinition (type index size : Nat) : Bool :=
  index ≠ 0 && (index < 0xFF00 || index = 0xFFFF)
    && (type = 1 || type = 2 || type = 0 && size ≠ 0)

/-- The symbol of an entry of the symbol table. -/
def symbol (file : File) (names : Option Bytes) (entry : Bytes) : Symbol :=
  let info := file.layout.symbolInfo.read file.order entry
  let size := file.layout.symbolExtent.read file.order entry
  { name := names.bind fun names => name? names (file.layout.symbolName.read file.order entry)
    isDefinition :=
      isDefinition (info % 16) (file.layout.symbolSection.read file.order entry) size
    isFunction := info % 16 = 2 || info % 16 = 10
    isGlobal := info / 16 ≠ 0
    size := size }

/-- The width of a section number in a table of these. -/
def indexWidth : Nat := 4

/-- The symbols of the first section of a kind, without the first entry. -/
def symbolsOfKind (file : File) (sections : List Section) (kind : Nat) :
    Except Defect (List Symbol) :=
  match sections.findIdx? fun s => s.kind = kind with
  | none => .ok []
  | some index => do
    let table := sections[index]?.getD ⟨kind, 0, 0, 0, 0⟩
    match table? file.bytes file.layout.symbolSize table.offset table.size with
    | none => throw .symbolTable
    | some bytes =>
      let names ← nameTable file sections table.link
      let isReadable := fun (s : Section) => (table? file.bytes indexWidth s.offset s.size).isSome
      if (sections.filter fun s => s.kind = extendedKind && s.link = index).all isReadable then
        let count := table.size / file.layout.symbolSize
        return ((entries file.layout.symbolSize count bytes).drop 1).map (symbol file names)
      else throw .extendedIndices

/-! ## Relocations -/

/-- The number of the symbol table, or zero if there is none. -/
def symbolTableIndex (sections : List Section) : Nat :=
  (sections.findIdx? fun s => s.kind = symbolKind).getD 0

/-- Whether a section holds relocations. -/
def Section.isRelocation (s : Section) : Bool := relocationKinds.contains s.kind

/-- What is wrong with a section of relocations for the symbols of the symbol table: the section
that it relocates has to exist and may not hold relocations itself. -/
def relocationDefect? (sections : List Section) (s : Section) : Option Defect :=
  if s.isRelocation && s.link = symbolTableIndex sections && s.info ≠ 0 then
    match sections[s.info]? with
    | none => some .relocationTarget
    | some target => if target.isRelocation then some .relocationOfRelocations else none
  else none

/-- Whether the sections of relocations are in order, from the last one on. -/
def checkRelocations (sections : List Section) : Except Defect Unit :=
  match sections.reverse.findSome? (relocationDefect? sections) with
  | some defect => .error defect
  | none => .ok ()

/-! ## The whole file -/

/-- The symbols of an ELF file.  The dynamic linker's table has to be in order, but its symbols do
not count. -/
def symbols (bytes : Bytes) : Except Defect (List Symbol) := do
  let file ← file bytes
  checkSegments file
  let sections ← sections file
  checkNames file sections
  let symbols ← symbolsOfKind file sections symbolKind
  let _ ← symbolsOfKind file sections dynamicKind
  checkRelocations sections
  return symbols

end KernelIsa.Elf
