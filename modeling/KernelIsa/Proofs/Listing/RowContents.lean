import KernelIsa.Proofs.Listing.InstructionCount

/-!
# Proofs/Listing/RowContents — what a row keeps of its line

A row is cut from the trimmed line, the address of an instruction from the line as it stands.  An
address mark and a colon are no blanks, so both cuts fall at the same places
(`Text.exists_splitAround?_eq`) and what is lost between the fields is blank: the `solid` characters
of the fields, with the mark and the colon put back, are those of the line
(`Row.solid_located`, `Row.solid_bare`).  The address of a row reads as that of its line
(`Row.read?_address`).
-/

namespace KernelIsa

namespace Text

variable {mark t : Text}

/-! ## Cuts and blanks -/

/-- A mark without blanks cuts a text where it cuts the trimmed one. -/
theorem exists_splitAround?_eq (hmark : mark ≠ []) (hsolid : ∀ c ∈ mark, ¬ isBlank c) (t : Text) :
    ∃ lead behind, (∀ c ∈ behind, isBlank c) ∧ splitAround? mark t
      = (splitAround? mark (trim t)).map fun parts => (lead ++ parts.1, parts.2 ++ behind) := by
  obtain ⟨lead, behind, ht, hlead, hbehind⟩ := exists_trim t
  have hdisjoint {s : Text} (hs : ∀ c ∈ s, isBlank c) : ∀ c ∈ s, c ∉ mark :=
    fun c hc hm => hsolid c hm (hs c hc)
  refine ⟨lead, behind, hbehind, ?_⟩
  conv_lhs => rw [ht]
  rw [splitAround?_append_of_disjoint hmark (hdisjoint hbehind),
    splitAround?_append_of_disjoint_left hmark (hdisjoint hlead), Option.map_map]
  rfl

/-- The characters of a text that are no blanks. -/
def solid (t : Text) : Text := t.filter fun c => !isBlank c

@[simp] theorem solid_append (s t : Text) : solid (s ++ t) = solid s ++ solid t :=
  List.filter_append ..

theorem solid_eq_nil (h : ∀ c ∈ t, isBlank c) : solid t = [] :=
  List.filter_eq_nil_iff.mpr fun c hc => by simp [h c hc]

@[simp] theorem solid_trim (t : Text) : solid (trim t) = solid t := by
  obtain ⟨lead, behind, ht, hlead, hbehind⟩ := exists_trim t
  conv_rhs => rw [ht]
  rw [solid_append, solid_append, solid_eq_nil hlead, solid_eq_nil hbehind, List.nil_append,
    List.append_nil]

end Text

/-! ## The address of a line -/

namespace Line

open Text

variable {line comment behind : Text}

/-- The address of an instruction that has a readable one. -/
def Location.address? : Location → Option Nat
  | .span n _ => some n
  | .absent | .unreadable => none

/-- An address comment gives the address in front of its first colon. -/
theorem address?_locate (comment : Text) : (locate comment).address?
    = (splitAround? [':'] comment).bind fun parts => Word.read? 16 (trim parts.1) := by
  rw [locate]
  cases splitAround? [':'] comment with
  | none => rfl
  | some parts =>
    dsimp only [Option.bind_some]
    split
    · next h => rw [h]; rfl
    · next h => rw [h]; rfl

/-- The address mark cuts a line where it cuts the trimmed one. -/
theorem exists_splitAround?_eq_mark (line : Text) :
    ∃ lead behind, (∀ c ∈ behind, isBlank c) ∧ splitAround? addressMark line
      = (splitAround? addressMark (trim line)).map fun parts =>
          (lead ++ parts.1, parts.2 ++ behind) :=
  exists_splitAround?_eq (List.cons_ne_nil _ _)
    (fun _ hmark hblank => not_mem_addressMark_of_blank hblank hmark) line

/-- Blanks at its ends do not matter to the address of a line. -/
theorem address?_location_trim (line : Text) :
    (location (trim line)).address? = (location line).address? := by
  obtain ⟨lead, behind, hbehind, hcut⟩ := exists_splitAround?_eq_mark line
  have hcolon : ∀ c ∈ behind, c ∉ [':'] := fun c hc hmem => by
    rw [List.mem_singleton.mp hmem] at hc
    exact absurd (hbehind _ hc) (by decide)
  rw [location_eq, location_eq, addressComment?, addressComment?, hcut]
  cases splitAround? addressMark (trim line) with
  | none => rfl
  | some parts =>
    simp only [Option.map_some, Option.elim_some, address?_locate,
      splitAround?_append_of_disjoint (List.cons_ne_nil _ _) hcolon]
    cases splitAround? [':'] parts.2 <;> rfl

end Line

/-! ## The row of a line -/

namespace Row

open Text

variable {line : Text} {row : Row}

/-- The row of an instruction has the characters of the code as opcode and operands. -/
theorem solid_opcode_operands (code : Text) (comment : Option Text) :
    solid (ofInstruction code comment).opcode ++ solid (ofInstruction code comment).operands
      = solid code := by
  have hcode : firstToken code ++ afterFirstToken code = code := List.takeWhile_append_dropWhile
  rw [ofInstruction, solid_trim, ← solid_append, hcode]

/-- The address of a row reads as that of the address comment. -/
theorem read?_ofInstruction (code : Text) (comment : Option Text) :
    Word.read? 16 (ofInstruction code comment).address
      = (comment.elim .absent Line.locate).address? := by
  cases comment with
  | none => rfl
  | some comment =>
    rw [Option.elim_some, Line.address?_locate, ofInstruction]
    dsimp only [Option.bind_some]
    cases splitAround? [':'] comment <;> rfl

/-- **What the entry of a line is**: an instruction with an address comment, a label, or an
instruction without one. -/
theorem ofLine?_eq_some (h : ofLine? line = some row) :
    (∃ code comment, splitAround? Line.addressMark (trim line) = some (code, comment) ∧
      row = ofInstruction (trim code) (some comment)) ∨
    splitAround? Line.addressMark (trim line) = none ∧
      ((trim line).getLast? = some ':' ∧ row = ofLabel (lastToken (trim line)) ∨
        (trim line).getLast? ≠ some ':' ∧ row = ofInstruction (trim line) none) := by
  rw [ofLine?] at h
  split at h
  · cases h
  · split at h
    · next code comment hcut => exact .inl ⟨code, comment, hcut, (Option.some.inj h).symm⟩
    · next hcut =>
      refine .inr ⟨hcut, ?_⟩
      split at h
      · next hcolon => exact .inl ⟨hcolon, (Option.some.inj h).symm⟩
      · next hcolon => exact .inr ⟨hcolon, (Option.some.inj h).symm⟩

/-! ## What a row keeps -/

/-- What the row of a line keeps of it. -/
structure Keeps (line : Text) (row : Row) : Prop where
  /-- If a colon stands behind an address mark, the four fields with the mark and the colon are the
  line, but for blanks. -/
  located : ∀ front address behind, line = front ++ Line.addressMark ++ address ++ ':' :: behind →
    solid (row.opcode ++ row.operands ++ Line.addressMark ++ row.address ++ ':' :: row.encoding)
      = solid line
  /-- If there is no address mark and no colon at the end, opcode and operands are the line, but for
  blanks. -/
  bare : ¬ Line.addressMark <:+: line → (trim line).getLast? ≠ some ':' →
    solid (row.opcode ++ row.operands) = solid line
  address : ∀ n width, Line.location line = .span n width → Word.read? 16 row.address = some n
  no_address : Line.location line = .unreadable → Word.read? 16 row.address = none

theorem ofLine?_eq_none_iff : ofLine? line = none ↔ Line.isSilent (trim line) := by
  rw [ofLine?, Line.isSilent]
  split
  · next h => exact iff_of_true rfl h
  · next h =>
    refine iff_of_false ?_ h
    split
    · exact Option.some_ne_none _
    · split <;> exact Option.some_ne_none _

/-- **The address of a row is that of its line**, if the line has a readable one. -/
theorem read?_address (h : ofLine? line = some row) :
    Word.read? 16 row.address = (Line.location line).address? := by
  rw [← Line.address?_location_trim, Line.location_eq, Line.addressComment?]
  obtain ⟨code, comment, hcut, rfl⟩ | ⟨hcut, ⟨-, rfl⟩ | ⟨-, rfl⟩⟩ := ofLine?_eq_some h
  · rw [hcut, read?_ofInstruction]
    rfl
  · rw [hcut]
    rfl
  · rw [hcut, read?_ofInstruction]
    rfl

/-- **A line with an address comment is in its row.** -/
theorem solid_located (h : ofLine? line = some row) {front address behind : Text}
    (hline : line = front ++ Line.addressMark ++ address ++ ':' :: behind) :
    solid (row.opcode ++ row.operands ++ Line.addressMark ++ row.address ++ ':' :: row.encoding)
      = solid line := by
  obtain ⟨lead, after, hafter, hcut⟩ := Line.exists_splitAround?_eq_mark line
  obtain ⟨code, comment, hcut', rfl⟩ | ⟨hcut', -⟩ := ofLine?_eq_some h
  · have hcolon : ':' ∈ comment := by
      rw [hcut'] at hcut
      have hmark : line = front ++ Line.addressMark ++ (address ++ ':' :: behind) := by
        rw [hline, List.append_assoc _ address]
      have hmem : ':' ∈ comment ++ after :=
        mem_of_splitAround? (by decide) (by decide) hcut hmark (by simp)
      exact (List.mem_append.mp hmem).resolve_right fun hb => absurd (hafter ':' hb) (by decide)
    obtain ⟨⟨digits, encoding⟩, hcolon⟩ := Option.ne_none_iff_exists'.mp
      (mt splitAround?_singleton_eq_none_iff.mp (not_not.mpr hcolon))
    have hcomment := splitAround?_eq_some hcolon
    have hfields : (ofInstruction (trim code) (some comment)).address = trim digits ∧
        (ofInstruction (trim code) (some comment)).encoding = trim encoding := by
      rw [ofInstruction, Option.bind_some, hcolon]
      exact ⟨rfl, rfl⟩
    rw [hfields.1, hfields.2, List.append_cons]
    simp only [solid_append, solid_opcode_operands, solid_trim]
    rw [← solid_trim line, splitAround?_eq_some hcut', hcomment]
    simp only [solid_append, List.append_assoc]
  · -- the mark of the line is that of the trimmed line
    rw [hcut'] at hcut
    refine absurd ?_ (splitAround?_eq_none_iff.mp hcut)
    exact ⟨front, address ++ ':' :: behind, by rw [hline, List.append_assoc _ address]⟩

theorem solid_bare (h : ofLine? line = some row) (hmark : ¬ Line.addressMark <:+: line)
    (hcolon : (trim line).getLast? ≠ some ':') :
    solid (row.opcode ++ row.operands) = solid line := by
  obtain ⟨lead, after, -, hcut⟩ := Line.exists_splitAround?_eq_mark line
  rw [splitAround?_eq_none_iff.mpr hmark] at hcut
  obtain ⟨code, comment, hcut', -⟩ | ⟨-, ⟨hlast, -⟩ | ⟨-, rfl⟩⟩ := ofLine?_eq_some h
  · rw [hcut'] at hcut
    cases hcut
  · exact absurd hlast hcolon
  · rw [solid_append, solid_opcode_operands, solid_trim]

/-- **A line that is neither blank nor a comment has a row, and the row keeps what is on it.** -/
theorem ofLine?_keeps (line : Text) : (ofLine? line = none ↔ Line.isSilent (trim line)) ∧
    ∀ row, ofLine? line = some row → Keeps line row := by
  refine ⟨ofLine?_eq_none_iff, fun row h => ?_⟩
  have haddress := read?_address h
  exact {
    located := fun _ _ _ => solid_located h
    bare := solid_bare h
    address := fun n width hspan => by rw [haddress, hspan]; rfl
    no_address := fun hspan => by rw [haddress, hspan]; rfl }

/-- An instruction with two marks, two colons and a padded address. -/
def annotated : Text := "\ts_nop 0 // 10 // 1f : BF:80\u00a0 ".toList

/-- Its row has the text between the first mark and the first colon as the address, which is none.
-/
theorem ofLine?_keeps_annotated :
    ofLine? annotated = some ⟨"10 // 1f".toList, "s_nop".toList, ['0'], "BF:80".toList⟩ ∧
      ((ofLine? annotated = none ↔ Line.isSilent (trim annotated)) ∧
        Keeps annotated ⟨"10 // 1f".toList, "s_nop".toList, ['0'], "BF:80".toList⟩) := by
  have hrow : ofLine? annotated
      = some ⟨"10 // 1f".toList, "s_nop".toList, ['0'], "BF:80".toList⟩ := by decide +kernel
  exact ⟨hrow, (ofLine?_keeps annotated).1, (ofLine?_keeps annotated).2 _ hrow⟩

end Row

end KernelIsa
