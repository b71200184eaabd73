import KernelIsa.Listing.Registers
import KernelIsa.Listing.Row
import KernelIsa.Proofs.Listing.ReducedText

/-!
# Proofs/Listing/InstructionCount — the instructions counted, beside the rows of the table

The usage of a fragment counts instructions, and the table of a fragment has a row for each; the two
read lines on their own.  A row comes from an `Entry`, which knows what the row stands for
(`ofLine?_eq`).  The readings differ on two kinds of lines: a line that ends in a colon without
being a label, such as an address in front of a label, is counted although its row is a label's
(`isMiscounted`), and a line that opens with a comma or an address comment, or a label with an
address mark in its name, has the row of an instruction and is not counted (`isOverlooked`).  They
are the whole difference (`instructions_add_overlooked`).
-/

namespace KernelIsa

/-! ## Rows that stand for instructions -/

namespace Row

/-- What a row stands for. -/
inductive Entry
  | label (name : Text)
  | instruction (code : Text) (comment : Option Text)
  deriving DecidableEq, Repr

namespace Entry

/-- The row of an entry. -/
def row : Entry → Row
  | .label name => ofLabel name
  | .instruction code comment => ofInstruction code comment

/-- Whether an entry is an instruction. -/
def isInstruction : Entry → Bool
  | .label _ => false
  | .instruction _ _ => true

end Entry

/-- The entry of a line. -/
def read? (line : Text) : Option Entry :=
  let trimmed := Text.trim line
  if trimmed.isEmpty || Line.isComment trimmed then none
  else match Text.splitAround? Line.addressMark trimmed with
    | some (code, comment) => some (.instruction (Text.trim code) (some comment))
    | none =>
      if trimmed.getLast? = some ':' then some (.label (Text.lastToken trimmed))
      else some (.instruction trimmed none)

/-- **The row of a line is the row of its entry.** -/
theorem ofLine?_eq (line : Text) : ofLine? line = (read? line).map Entry.row := by
  simp only [ofLine?, read?]
  split
  · rfl
  · cases Text.splitAround? Line.addressMark (Text.trim line) with
    | some parts => rfl
    | none =>
      dsimp only
      split <;> rfl

/-- The entries of a fragment's body. -/
def entries (fragment : Text) : List Entry :=
  (Text.lines (Fragment.body fragment)).filterMap read?

theorem ofFragment_eq_map_entries (fragment : Text) :
    ofFragment fragment = (entries fragment).map Entry.row := by
  rw [ofFragment, entries, List.map_filterMap]
  exact List.filterMap_congr fun line _ => ofLine?_eq line

/-- The number of rows of a table that are instructions. -/
def instructions (fragment : Text) : Nat := (entries fragment).countP Entry.isInstruction

end Row

/-! ## The two readings of a line -/

namespace Line

/-- Whether a trimmed line is passed over by both readings. -/
def isSilent (trimmed : Text) : Bool := trimmed.isEmpty || isComment trimmed

/-- Whether a line is the row of an instruction. -/
def isTabled (line : Text) : Bool := (Row.read? line).any Row.Entry.isInstruction

/-- Whether a line is counted as an instruction. -/
def isCounted (line : Text) : Bool := (Registers.tokens? line).isSome

/-- A line that ends in a colon, with no address comment, but is no label: there is a blank or a
second colon in front of the colon, or nothing. -/
def isMiscounted (line : Text) : Bool :=
  let trimmed := Text.trim line
  !isSilent trimmed && !Text.hasMark addressMark trimmed && trimmed.getLast? = some ':'
    && !(label? trimmed).isSome && trimmed.head? ≠ some ','

/-- A line with an address comment or without a colon at its end that is a label all the same, or
has no mnemonic. -/
def isOverlooked (line : Text) : Bool :=
  let trimmed := Text.trim line
  !isSilent trimmed && (Text.hasMark addressMark trimmed || trimmed.getLast? ≠ some ':')
    && ((label? trimmed).isSome || trimmed.head? = some ',' || Text.startsWith addressMark trimmed)

theorem isTabled_eq (line : Text) : isTabled line = (!isSilent (Text.trim line)
    && (Text.hasMark addressMark (Text.trim line) || (Text.trim line).getLast? ≠ some ':')) := by
  simp only [isTabled, Row.read?, isSilent, Text.hasMark]
  split
  · next hsilent => rw [hsilent]; rfl
  · next hsilent =>
    rw [Bool.not_eq_true] at hsilent
    rw [hsilent]
    cases Text.splitAround? addressMark (Text.trim line) with
    | some parts => rfl
    | none =>
      dsimp only
      split
      · next hcolon => simp [hcolon, Row.Entry.isInstruction]
      · next hcolon => simp [hcolon, Row.Entry.isInstruction]

/-- What stands in front of the address mark starts as the line does, unless it is empty. -/
theorem head?_code (t : Text) :
    (((Text.splitAround? addressMark t).map Prod.fst).getD t).head?
      = if Text.startsWith addressMark t then none else t.head? := by
  cases t with
  | nil => rfl
  | cons c t =>
    rw [Text.splitAround?, Text.startsWith]
    cases Text.dropLead? addressMark (c :: t) with
    | some rest => rfl
    | none => cases Text.splitAround? addressMark t <;> rfl

/-- A line that opens with neither a comma nor the address mark has a mnemonic. -/
theorem exists_mnemonic {t : Text} (hne : t ≠ []) (hhead : ∀ c ∈ t.head?, ¬ Text.isBlank c) :
    ∃ mnemonic operands, pieces (fun c => Text.isBlank c || c = ',')
        (((Text.splitAround? addressMark t).map Prod.fst).getD t) = mnemonic :: operands ∧
      mnemonic.isEmpty = (t.head? = some ',' || Text.startsWith addressMark t) := by
  obtain ⟨mnemonic, operands, hpieces, hempty⟩ := Text.exists_pieces_eq_cons
    (fun c => Text.isBlank c || c = ',') (((Text.splitAround? addressMark t).map Prod.fst).getD t)
  refine ⟨mnemonic, operands, hpieces, ?_⟩
  obtain ⟨c, t, rfl⟩ := List.exists_cons_of_ne_nil hne
  have hc : Text.isBlank c = false := by simpa using hhead
  rw [Bool.eq_iff_iff, List.isEmpty_iff, hempty, head?_code]
  cases Text.startsWith addressMark (c :: t) with
  | true => simp
  | false => simp [hc]

theorem isCounted_eq (line : Text) : isCounted line = (!isSilent (Text.trim line)
    && !(label? (Text.trim line)).isSome
    && !(decide ((Text.trim line).head? = some ',')
      || Text.startsWith addressMark (Text.trim line))) := by
  have hhead : ∀ c ∈ (Text.trim line).head?, ¬ Text.isBlank c := Text.not_isBlank_head_trim line
  simp only [isCounted, Registers.tokens?, isSilent]
  generalize Text.trim line = t at hhead ⊢
  by_cases hne : t = []
  · rw [hne]
    rfl
  · obtain ⟨mnemonic, operands, hpieces, hempty⟩ := exists_mnemonic hne hhead
    rw [hpieces, ← hempty, List.isEmpty_eq_false_iff.mpr hne]
    dsimp only
    cases isComment t <;> cases label? t <;> cases mnemonic.isEmpty <;> rfl

/-- **The two readings differ by the miscounted and the overlooked lines.** -/
theorem isCounted_add_isOverlooked (line : Text) :
    (isCounted line).toNat + (isOverlooked line).toNat
      = (isTabled line).toNat + (isMiscounted line).toNat := by
  have hmark : ∀ t, Text.startsWith addressMark t = true → Text.hasMark addressMark t = true :=
    fun t h => Text.hasMark_iff.mpr (Text.startsWith_iff.mp h).isInfix
  have hlogic : ∀ silent label mark start colon comma : Bool, (start = true → mark = true) →
      (!silent && !label && !(comma || start)).toNat
          + (!silent && (mark || !colon) && (label || comma || start)).toNat
        = (!silent && (mark || !colon)).toNat
          + (!silent && !mark && colon && !label && !comma).toNat := by decide
  simp only [isCounted_eq, isTabled_eq, isMiscounted, isOverlooked, ne_eq, decide_not]
  exact hlogic _ _ _ _ _ _ (hmark _)

end Line

/-! ## The two counts of a fragment -/

open Line

theorem countP_cons_toNat (p : Text → Bool) (line : Text) (lines : List Text) :
    (line :: lines).countP p = lines.countP p + (p line).toNat := by
  rw [List.countP_cons]
  cases p line <;> rfl

namespace Registers

theorem Usage.instructions_note {usage usage' : Usage} {operand : Operand}
    (h : usage.note operand = .ok usage') : usage'.instructions = usage.instructions := by
  obtain ⟨count, -, h⟩ := bind_eq_ok_iff.mp h
  split at h
  · rw [← Except.ok.inj h]
  · rw [← Except.ok.inj h]

theorem Usage.instructions_foldlM_note {operands : List Operand} {usage usage' : Usage}
    (h : operands.foldlM note usage = .ok usage') : usage'.instructions = usage.instructions := by
  induction operands generalizing usage with
  | nil => rw [← Except.ok.inj h]
  | cons operand operands ih =>
    rw [List.foldlM_cons] at h
    obtain ⟨next, hnext, h⟩ := bind_eq_ok_iff.mp h
    rw [ih h, instructions_note hnext]

/-- A line is counted once or not at all, whatever registers it names. -/
theorem Usage.instructions_noteLine {usage usage' : Usage} {line : Text}
    (h : usage.noteLine line = .ok usage') :
    usage'.instructions = usage.instructions + (isCounted line).toNat := by
  rw [noteLine] at h
  rw [isCounted]
  cases htokens : tokens? line with
  | none =>
    rw [htokens] at h
    rw [← Except.ok.inj h]
    rfl
  | some tokens =>
    rw [htokens] at h
    rw [instructions_foldlM_note h]
    rfl

theorem Usage.instructions_foldlM {lines : List Text} {usage usage' : Usage}
    (h : lines.foldlM noteLine usage = .ok usage') :
    usage'.instructions = usage.instructions + lines.countP isCounted := by
  induction lines generalizing usage with
  | nil => rw [← Except.ok.inj h]; rfl
  | cons line lines ih =>
    rw [List.foldlM_cons] at h
    obtain ⟨next, hnext, h⟩ := bind_eq_ok_iff.mp h
    rw [ih h, instructions_noteLine hnext, countP_cons_toNat]
    omega

end Registers

theorem Row.instructions_eq (fragment : Text) :
    instructions fragment = (Text.lines (Fragment.body fragment)).countP isTabled := by
  rw [instructions, entries, List.countP_filterMap]
  refine List.countP_congr fun line _ => ?_
  rw [isTabled]
  cases read? line <;> rfl

/-- The miscounted and the overlooked lines among some lines make up the difference of the counts.
-/
theorem countP_isCounted_add (lines : List Text) :
    lines.countP isCounted + lines.countP isOverlooked
      = lines.countP isTabled + lines.countP isMiscounted := by
  induction lines with
  | nil => rfl
  | cons line lines ih =>
    have hline := isCounted_add_isOverlooked line
    simp only [countP_cons_toNat]
    omega

/-- An address in front of a label makes a line that is miscounted, and so does every inline label
in its plain form. -/
theorem isMiscounted_plain {address label : Text} (hne : address ≠ [])
    (hhead : ∀ c ∈ address.head?, ¬ Text.isBlank c ∧ c ≠ ';' ∧ c ≠ ',') (ha : '/' ∉ address)
    (hl : '/' ∉ label) : isMiscounted (address ++ ' ' :: (label ++ [':'])) = true := by
  obtain ⟨c, address, rfl⟩ := List.exists_cons_of_ne_nil hne
  obtain ⟨hblank, hcomment, hcomma⟩ := hhead c rfl
  have hlast : (c :: address ++ ' ' :: (label ++ [':'])).getLast? = some ':' := by
    rw [← List.cons_append, ← List.append_assoc, List.getLast?_concat]
  have hend : ∀ d ∈ (c :: address ++ ' ' :: (label ++ [':'])).getLast?, ¬ Text.isBlank d := by
    rw [hlast]
    rintro d ⟨⟩
    decide
  have htrim := Text.trim_eq_self (by simpa using hblank) hend
  have hspace : ' ' ∈ c :: address ++ ' ' :: (label ++ [':']) := by simp
  have hmark : Text.hasMark addressMark (c :: address ++ ' ' :: (label ++ [':'])) = false := by
    rw [← Bool.not_eq_true, Text.hasMark_iff]
    intro hinfix
    have hslash : '/' ∈ c :: address ++ ' ' :: (label ++ [':']) := hinfix.subset (by decide)
    simp only [List.mem_append, List.mem_cons] at hslash ha
    simp_all
  simp only [isMiscounted, htrim, hmark, hlast, label?_eq_none_of_blank hspace (by decide)]
  simp [isSilent, isComment, hcomment, hcomma]

/-- **The counts differ by the miscounted and the overlooked lines**, and agree exactly if these are
equally many. -/
theorem instructions_add_overlooked {fragment : Text} {usage : Registers.Usage}
    (h : Registers.usage fragment = .ok usage) :
    usage.instructions + (Text.lines (Fragment.body fragment)).countP isOverlooked
        = Row.instructions fragment + (Text.lines (Fragment.body fragment)).countP isMiscounted
      ∧ (usage.instructions = Row.instructions fragment ↔
        (Text.lines (Fragment.body fragment)).countP isMiscounted
          = (Text.lines (Fragment.body fragment)).countP isOverlooked) := by
  have hcounted : usage.instructions = (Text.lines (Fragment.body fragment)).countP isCounted := by
    rw [Registers.Usage.instructions_foldlM h]
    exact Nat.zero_add _
  have hlines := countP_isCounted_add (Text.lines (Fragment.body fragment))
  rw [hcounted, Row.instructions_eq]
  omega

/-- An inline label and an instruction behind it. -/
def labelledCode : Text := "; k\n; k\n0 <B>:\n\ts_nop\n".toList

/-- What a reduction leaves of them: the label in its plain form. -/
def plainCode : Text := "; k\n; k\n0 B:\n\ts_nop\n".toList

/-- In the plain code one line is miscounted. -/
theorem instructions_add_overlooked_plainCode : Registers.usage plainCode = .ok ⟨0, 0, 2⟩ ∧
    (2 + (Text.lines (Fragment.body plainCode)).countP isOverlooked
        = Row.instructions plainCode + (Text.lines (Fragment.body plainCode)).countP isMiscounted
      ∧ (2 = Row.instructions plainCode ↔
        (Text.lines (Fragment.body plainCode)).countP isMiscounted
          = (Text.lines (Fragment.body plainCode)).countP isOverlooked)) := by
  have husage : Registers.usage plainCode = .ok ⟨0, 0, 2⟩ := by decide +kernel
  exact ⟨husage, instructions_add_overlooked husage⟩

/-- The code that a reduction leaves need not have as many instructions counted as there are rows of
instructions. -/
theorem instructions_ne_plainCode : Reduction.reduce labelledCode 8 = .ok (.reduced plainCode) ∧
    ∃ usage, Registers.usage plainCode = .ok usage ∧
      usage.instructions ≠ Row.instructions plainCode :=
  ⟨by decide +kernel, ⟨0, 0, 2⟩, by decide +kernel, by decide +kernel⟩

end KernelIsa
