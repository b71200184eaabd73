import KernelIsa.Listing.Row
import KernelIsa.Proofs.Listing.LineForms
import KernelIsa.Proofs.Listing.StripLabels

/-!
# Proofs/Listing/MachineCode — the encoding of an instruction under stripping

A disassembler prints an instruction as its code, its address and the words of its encoding, and
puts a `Note` of the place that a branch leads to behind them.  Stripping the labels of a text
leaves a line without a note alone (`strip_print_none`), but takes the last word of the encoding for
the address of the label in the note (`strip_print_some`).  So the machine code survives exactly
where there is no note (`isKept_strip_iff`).
-/

namespace KernelIsa.MachineCode

open Text

/-- An instruction of a disassembly. -/
structure Instruction where
  /-- Everything in front of the address comment. -/
  code : Text
  /-- The digits of the address. -/
  address : Text
  value : Nat
  /-- The words of the encoding. -/
  words : List Text

/-- The place that a disassembler names behind a branch. -/
structure Note where
  symbol : Text
  /-- The digits of the distance from the symbol. -/
  offset : Text

namespace Note

/-- The note behind its opening bracket. -/
def text (n : Note) : Text := n.symbol ++ "+0x".toList ++ n.offset ++ ['>']

/-- A symbol is one token and closes no bracket. -/
structure Printable (n : Note) : Prop where
  symbol_plain : ∀ c ∈ n.symbol, ¬ isBlank c ∧ c ≠ '>'
  offset_digit : ∀ c ∈ n.offset, (Word.digit? 16 c).isSome

end Note

namespace Instruction

/-- What stands behind the address mark, with some tokens in the place of the encoding. -/
def comment (i : Instruction) (ws : List Text) : Text :=
  ' ' :: (i.address ++ ':' :: ' ' :: joined ' ' ws)

/-- The line of an instruction with some tokens in the place of the encoding. -/
def row (i : Instruction) (ws : List Text) : Text :=
  i.code ++ ' ' :: (Line.addressMark ++ i.comment ws)

/-- The instruction as it is printed. -/
def print (i : Instruction) : Option Note → Text
  | none => i.row i.words
  | some n => i.row i.words ++ ' ' :: '<' :: n.text

/-- What a disassembler prints: code that is no comment and holds no mark and no part of a label, an
address of 64 bits, and one or two words of eight digits. -/
structure Printable (i : Instruction) : Prop where
  no_mark : ¬ Line.addressMark <:+: i.code
  no_opening : ¬ [' ', '<'] <:+: i.code
  no_closing : ¬ ['>', ':'] <:+: i.code
  no_comment : Line.isComment (trimStart i.code) = false
  address_digit : ∀ c ∈ i.address, (Word.digit? 16 c).isSome
  address_value : Word.read? 16 i.address = some i.value
  one_or_two : i.words.length = 1 ∨ i.words.length = 2
  word_length : ∀ w ∈ i.words, w.length = 8
  word_digit : ∀ w ∈ i.words, ∀ c ∈ w, (Word.digit? 16 c).isSome

/-- A line still has the machine code of the instruction: its encoding starts with the words, and
the address and the width are those of the instruction. -/
structure IsKept (i : Instruction) (line : Text) : Prop where
  encoding : ∃ row, Row.ofLine? line = some row ∧ i.words <+: tokens row.encoding
  location : Line.location line = .span i.value (4 * i.words.length)

end Instruction

variable {i : Instruction} {n : Note} {note : Option Note} {ws : List Text} {w t : Text} {c : Char}

/-! ## Digits -/

theorem plain_of_digit? (h : (Word.digit? 16 c).isSome) : c.isAlphanum ∧ c.utf8Size = 1 := by
  have key : ∀ k < 103, (Word.digit? 16 (Char.ofNat k)).isSome →
      (Char.ofNat k).isAlphanum ∧ (Char.ofNat k).utf8Size = 1 := by decide
  have hrange := Word.digit?_range h
  rw [← Char.ofNat_toNat c] at h ⊢
  exact key _ (by omega) h

theorem byteLength_of_digits (h : ∀ c ∈ t, (Word.digit? 16 c).isSome) :
    byteLength t = t.length := by
  induction t with
  | nil => rfl
  | cons c t ih =>
    obtain ⟨hc, ht⟩ := List.forall_mem_cons.mp h
    rw [byteLength_cons, (plain_of_digit? hc).2, ih ht, List.length_cons, Nat.add_comm]

/-- What holds digits holds no character that is none. -/
theorem not_mem_of_digits (h : ∀ c ∈ t, (Word.digit? 16 c).isSome)
    (hc : (Word.digit? 16 c).isSome = false) : c ∉ t :=
  fun hmem => absurd (h c hmem) (by rw [hc]; decide)

/-- A text of characters that are no blanks, but not none at all. -/
def IsToken (t : Text) : Prop := t ≠ [] ∧ ∀ c ∈ t, ¬ isBlank c

theorem Instruction.Printable.isToken (h : i.Printable) (hw : w ∈ i.words) : IsToken w := by
  refine ⟨fun hnil => ?_, fun c hc => Word.not_isBlank_of_digit? (h.word_digit w hw c hc)⟩
  have hlength := h.word_length w hw
  rw [hnil] at hlength
  cases hlength

theorem Note.Printable.isToken (h : n.Printable) : IsToken n.text := by
  refine ⟨by simp [Note.text], fun c hc => ?_⟩
  have hsign : ∀ c ∈ "+0x".toList ++ ['>'], ¬ isBlank c :=
    List.all_iff_forall_prop.mp (by decide)
  simp only [Note.text, List.mem_append] at hc
  rcases hc with ((hc | hc) | hc) | hc
  · exact (h.symbol_plain c hc).1
  · exact hsign c (List.mem_append_left _ hc)
  · exact Word.not_isBlank_of_digit? (h.offset_digit c hc)
  · exact hsign c (List.mem_append_right _ hc)

/-! ## Stripped lines -/

/-- A pair of characters lies in the code of a line or behind it. -/
theorem infix_code_iff {a b : Char} (hb : b ≠ ' ') (hslash : '/' ∉ [a, b]) {s : Text} :
    [a, b] <:+: s ++ ' ' :: '/' :: t ↔ [a, b] <:+: s ∨ [a, b] <:+: t := by
  have happend : s ++ ' ' :: '/' :: t = s ++ [' '] ++ '/' :: t := by simp
  rw [happend, infix_append_cons_iff (List.cons_ne_nil _ _) hslash, infix_concat_iff_of_ne hb]

theorem cons_joined_concat (ws : List Text) (w : Text) :
    ' ' :: joined ' ' (ws ++ [w]) = ws.flatMap (' ' :: ·) ++ ' ' :: w := by
  induction ws with
  | nil => rfl
  | cons v ws ih =>
    rw [List.cons_append, joined_cons _ _ (by simp), ih, List.flatMap_cons, List.cons_append,
      List.cons_append, List.append_assoc]

/-- The comment of an instruction up to the last token. -/
def Instruction.lead (i : Instruction) (ws : List Text) : Text :=
  ' ' :: (i.address ++ ':' :: ws.flatMap (' ' :: ·))

theorem comment_concat (i : Instruction) (ws : List Text) (w : Text) :
    i.comment (ws ++ [w]) = i.lead ws ++ ' ' :: w := by
  rw [Instruction.comment, cons_joined_concat, Instruction.lead]
  simp

theorem not_mem_lead (hi : i.Printable) (hc : (Word.digit? 16 c).isSome = false)
    (hsign : c ∉ [' ', ':']) (hws : ∀ w ∈ ws, w ∈ i.words) : c ∉ i.lead ws := by
  intro hmem
  simp only [Instruction.lead, List.mem_cons, List.mem_append, List.mem_flatMap] at hmem
  rcases hmem with h | h | h | ⟨w, hw, h | h⟩
  · exact hsign (by simp [h])
  · exact not_mem_of_digits hi.address_digit hc h
  · exact hsign (by simp [h])
  · exact hsign (by simp [h])
  · exact not_mem_of_digits (hi.word_digit w (hws w hw)) hc h

/-- The words of a printed instruction are some words and a last one. -/
theorem Instruction.Printable.words_eq (hi : i.Printable) :
    ∃ ws w, i.words = ws ++ [w] ∧ w ≠ [] ∧ (∀ v ∈ ws, v ∈ i.words) ∧
      ∀ c ∈ w, (Word.digit? 16 c).isSome := by
  have hne : i.words ≠ [] := by
    rintro hnil
    have hlength := hi.one_or_two
    rw [hnil] at hlength
    exact absurd hlength (by decide)
  obtain ⟨ws, w, hws⟩ := (List.eq_nil_or_concat i.words).resolve_left hne
  rw [List.concat_eq_append] at hws
  have hw : w ∈ i.words := by simp [hws]
  refine ⟨ws, w, hws, (hi.isToken hw).1, fun v hv => by simp [hws, hv], hi.word_digit w hw⟩

/-- **A line without a note is left alone.** -/
theorem strip_print_none (hi : i.Printable) : LabelAddress.strip (i.print none) = i.print none := by
  obtain ⟨ws, w, hwords, -, hmem, hdigits⟩ := hi.words_eq
  have hno : ∀ c, (Word.digit? 16 c).isSome = false → c ∉ [' ', ':', '/'] →
      c ∉ '/' :: i.comment i.words := by
    intro c hc hsign h
    rw [hwords, comment_concat, List.mem_cons, List.mem_append, List.mem_cons] at h
    rcases h with h | h | h | h
    · exact hsign (by simp [h])
    · exact not_mem_lead hi hc (fun hc => hsign (by simp at hc ⊢; tauto)) hmem h
    · exact hsign (by simp [h])
    · exact not_mem_of_digits hdigits hc h
  refine LabelAddress.strip_eq_self (fun h => ?_) fun h => ?_
  · rcases (infix_code_iff (by decide) (by decide)).mp h with h | h
    · exact hi.no_opening h
    · exact hno '<' (by decide) (by decide) (h.subset (by decide))
  · rcases (infix_code_iff (by decide) (by decide)).mp h with h | h
    · exact hi.no_closing h
    · exact hno '>' (by decide) (by decide) (h.subset (by decide))

theorem not_closing_row (hi : i.Printable) (hn : n.Printable) (hws : ∀ w ∈ ws, w ∈ i.words) :
    ¬ ['>', ':'] <:+: i.row (ws ++ [n.text]) := by
  intro h
  rcases (infix_code_iff (by decide) (by decide)).mp h with h | h
  · exact hi.no_closing h
  · -- the only bracket ends the line, so that no colon follows it
    have hend : '/' :: i.comment (ws ++ [n.text])
        = '/' :: (i.lead ws ++ ' ' :: (n.symbol ++ "+0x".toList ++ n.offset)) ++ ['>'] := by
      rw [comment_concat, Note.text]
      simp
    have hfree : '>' ∉ '/' :: (i.lead ws ++ ' ' :: (n.symbol ++ "+0x".toList ++ n.offset)) := by
      have hlead := not_mem_lead (c := '>') hi (by decide) (by decide) hws
      have hsymbol : '>' ∉ n.symbol := fun h => (hn.symbol_plain _ h).2 rfl
      have hoffset := not_mem_of_digits hn.offset_digit (c := '>') (by decide)
      simp [hlead, hsymbol, hoffset]
    have hin : ['>', ':'] <:+: '/' :: i.comment (ws ++ [n.text]) := h
    rw [hend, infix_concat_iff_of_ne (by decide)] at hin
    exact hfree (hin.subset (by decide))

/-- **The last word of the encoding is taken for the address of the note.** -/
theorem strip_print_some (hi : i.Printable) (hn : n.Printable) :
    LabelAddress.strip (i.print (some n)) = i.row (i.words.dropLast ++ [n.text]) := by
  obtain ⟨ws, w, hwords, hne, hmem, hdigits⟩ := hi.words_eq
  have hprint : i.print (some n)
      = i.code ++ ' ' :: '/' :: '/' :: i.lead ws ++ ' ' :: (w ++ ' ' :: '<' :: n.text) := by
    rw [Instruction.print, Instruction.row, hwords, comment_concat, Line.addressMark]
    simp
  have hopen : ¬ [' ', '<'] <:+: i.code ++ ' ' :: '/' :: '/' :: i.lead ws := fun h => by
    rcases (infix_code_iff (by decide) (by decide)).mp h with h | h
    · exact hi.no_opening h
    · have hlead := not_mem_lead (c := '<') hi (by decide) (by decide) hmem
      exact absurd (h.subset (by decide : '<' ∈ [' ', '<'])) (by simp [hlead])
  have htext : ¬ [' ', '<'] <:+: n.text := fun h =>
    hn.isToken.2 ' ' (h.subset (by decide)) (by decide)
  have hdrop : LabelAddress.dropAddresses (i.print (some n)) = i.row (ws ++ [n.text]) := by
    rw [hprint, LabelAddress.dropAddresses,
      LabelAddress.dropAddressesFrom_append_address hopen hne
        fun c hc => (plain_of_digit? (hdigits c hc)).1,
      LabelAddress.dropAddresses, LabelAddress.dropAddressesFrom_eq htext, Instruction.row,
      comment_concat, Line.addressMark]
    simp
  rw [LabelAddress.strip, hdrop, LabelAddress.dropClosing_eq (not_closing_row hi hn hmem), hwords,
    List.dropLast_concat]

/-! ## What a line tells -/

/-- A line without its indent has its address mark behind the code and is no comment. -/
theorem Instruction.Printable.trimStart_row (hi : i.Printable) (ws : List Text) :
    ∃ code, trimStart (i.row ws) = code ++ (Line.addressMark ++ i.comment ws) ∧
      Line.isComment (trimStart (i.row ws)) = false ∧
      splitAround? Line.addressMark (trimStart (i.row ws)) = some (code, i.comment ws) := by
  have hmark : ' ' ∉ Line.addressMark := by decide
  have hstart : (i.code ++ ' ' :: (Line.addressMark ++ i.comment ws)).dropWhile isBlank = _ :=
    List.dropWhile_append
  cases hcode : trimStart i.code with
  | nil =>
    rw [trimStart] at hcode
    rw [hcode, List.isEmpty_nil, if_pos rfl] at hstart
    exact ⟨[], hstart, by rw [Instruction.row, trimStart, hstart]; rfl, by
      rw [Instruction.row, trimStart, hstart]; rfl⟩
  | cons d y =>
    have hsuffix : d :: y <:+ i.code := hcode ▸ List.dropWhile_suffix _
    have hcomment := hi.no_comment
    rw [hcode] at hcomment
    rw [trimStart] at hcode
    rw [hcode, List.isEmpty_cons, if_neg (by decide)] at hstart
    have hsplit := splitAround?_append_of_not_infix (t := Line.addressMark ++ i.comment ws)
      (fun h => hi.no_mark (h.trans hsuffix.isInfix)) hmark
    have hat : splitAround? Line.addressMark (Line.addressMark ++ i.comment ws)
        = some ([], i.comment ws) := rfl
    rw [hat] at hsplit
    refine ⟨d :: y ++ [' '], ?_, ?_, ?_⟩
    · rw [Instruction.row, trimStart, hstart]
      simp
    · rw [Instruction.row, trimStart, hstart]
      exact hcomment
    · rw [Instruction.row, trimStart, hstart]
      exact hsplit

/-- The address comment is cut behind the address. -/
theorem splitAround?_comment (hi : i.Printable) (ws : List Text) :
    splitAround? [':'] (i.comment ws) = some (' ' :: i.address, ' ' :: joined ' ' ws) := by
  have hcolon : ':' ∉ ' ' :: i.address := by
    simpa using not_mem_of_digits hi.address_digit (c := ':') (by decide)
  have hcut : splitAround? [':'] (' ' :: i.address ++ ':' :: ([] ++ ' ' :: joined ' ' ws)) = _ :=
    splitAround?_append_of_not_mem hcolon
  exact hcut

/-- Tokens with a space between them are trimmed. -/
theorem trim_joined (hws : ∀ w ∈ ws, IsToken w) : trim (joined ' ' ws) = joined ' ' ws := by
  rcases List.eq_nil_or_concat ws with rfl | ⟨vs, w, hvs⟩
  · rfl
  rw [List.concat_eq_append] at hvs
  have hw : IsToken w := hws w (by simp [hvs])
  refine trim_eq_self (fun c hc => ?_) fun c hc => ?_
  · obtain ⟨v, us, hus⟩ := List.exists_cons_of_ne_nil (l := ws) (by simp [hvs])
    have hv : IsToken v := hws v (by simp [hus])
    have hhead : c ∈ v.head? := by
      obtain ⟨d, v', rfl⟩ := List.exists_cons_of_ne_nil hv.1
      cases us with
      | nil => rwa [hus] at hc
      | cons u us => rwa [hus, joined_cons _ _ (by simp)] at hc
    exact hv.2 c (List.mem_of_head? hhead)
  · have hlast : c ∈ (' ' :: joined ' ' ws).getLast? := by
      rw [List.getLast?_cons, Option.mem_def.mp hc]
      rfl
    rw [hvs, cons_joined_concat, List.append_cons, List.getLast?_append_of_ne_nil _ hw.1] at hlast
    exact hw.2 c (List.mem_of_getLast? hlast)

/-- **The row of a line** has the tokens behind the address as its encoding. -/
theorem ofLine?_row (hi : i.Printable) (hne : ws ≠ []) (hws : ∀ w ∈ ws, IsToken w) :
    ∃ row, Row.ofLine? (i.row ws) = some row ∧ row.encoding = joined ' ' ws := by
  obtain ⟨code, hrow, hcomment, hsplit⟩ := hi.trimStart_row ws
  -- a token ends the line, so that trimming takes the indent only
  have hend : ∀ c ∈ (trimStart (i.row ws)).getLast?, ¬ isBlank c := by
    obtain ⟨vs, w, hvs⟩ := (List.eq_nil_or_concat ws).resolve_left hne
    rw [List.concat_eq_append] at hvs
    have hw : IsToken w := hws w (by simp [hvs])
    intro c hc
    rw [hrow, hvs, comment_concat, ← List.append_assoc, ← List.append_assoc, List.append_cons,
      List.getLast?_append_of_ne_nil _ hw.1] at hc
    exact hw.2 c (List.mem_of_getLast? hc)
  have htrim : trim (i.row ws) = trimStart (i.row ws) := trimEnd_eq_self hend
  have hfull : (trimStart (i.row ws)).isEmpty = false := by
    rw [hrow, List.isEmpty_eq_false_iff]
    simp [Line.addressMark]
  refine ⟨Row.ofInstruction (trim code) (some (i.comment ws)), ?_, ?_⟩
  · rw [Row.ofLine?]
    simp only [htrim, hfull, hcomment, hsplit, Bool.or_self, Bool.false_eq_true, if_false]
  · rw [Row.ofInstruction]
    simp only [Option.bind_some, splitAround?_comment hi, Option.getD_some]
    rw [trim_cons_blank (by decide), trim_joined hws]

/-- **The location of a line** is the address, with the width that the length of the tokens
gives. -/
theorem location_row (hi : i.Printable) (ws : List Text) : Line.location (i.row ws)
    = .span i.value (if 2 + byteLength (joined ' ' ws) < Line.wideEncoding then 4 else 8) := by
  have hblank : ∀ c ∈ i.address, ¬ isBlank c := fun c hc =>
    Word.not_isBlank_of_digit? (hi.address_digit c hc)
  have haddress : trim i.address = i.address :=
    trim_eq_self (fun c hc => hblank c (List.mem_of_head? hc))
      fun c hc => hblank c (List.mem_of_getLast? hc)
  have hcomment : Line.addressComment? (i.row ws) = some (i.comment ws) := by
    rw [Instruction.row, Line.addressComment?_append hi.no_mark (by decide)]
    exact Line.addressComment?_append_mark (p := []) List.not_mem_nil
  have hlength : 1 + byteLength (' ' :: joined ' ' ws) = 2 + byteLength (joined ' ' ws) := by
    rw [byteLength_cons, ← Nat.add_assoc]
    rfl
  rw [Line.location_eq, hcomment, Option.elim_some, Line.locate, splitAround?_comment hi]
  simp only [trim_cons_blank (by decide : isBlank ' '), haddress, hi.address_value, hlength]

/-! ## The machine code -/

/-- The words of an instruction take as many bytes as its line says. -/
theorem location_row_words (hi : i.Printable) :
    Line.location (i.row i.words) = .span i.value (4 * i.words.length) := by
  have hword : ∀ w ∈ i.words, byteLength w = 8 := fun w hw => by
    rw [byteLength_of_digits (hi.word_digit w hw), hi.word_length w hw]
  rw [location_row hi]
  rcases hi.one_or_two with h | h
  · obtain ⟨w, hw⟩ := List.length_eq_one_iff.mp h
    rw [hw] at hword ⊢
    rw [joined, hword w (by simp)]
    rfl
  · obtain ⟨v, w, hvw⟩ := List.length_eq_two.mp h
    rw [hvw] at hword ⊢
    rw [joined_cons _ _ (by simp), joined, byteLength_append, byteLength_cons, hword v (by simp),
      hword w (by simp)]
    rfl

/-- **A line without a note keeps the machine code.** -/
theorem isKept_strip_none (hi : i.Printable) : i.IsKept (LabelAddress.strip (i.print none)) := by
  obtain ⟨ws, w, hwords, -⟩ := hi.words_eq
  obtain ⟨row, hrow, hencoding⟩ := ofLine?_row hi (by simp [hwords]) fun w hw => hi.isToken hw
  rw [strip_print_none hi]
  refine ⟨⟨row, hrow, ?_⟩, location_row_words hi⟩
  rw [hencoding, tokens_joined fun w hw => hi.isToken hw]

/-- **A line with a note loses a word.** -/
theorem not_isKept_strip_some (hi : i.Printable) (hn : n.Printable) :
    ¬ i.IsKept (LabelAddress.strip (i.print (some n))) := by
  obtain ⟨ws, w, hwords, -, hmem, hdigits⟩ := hi.words_eq
  have htokens : ∀ v ∈ ws ++ [n.text], IsToken v := by
    simp only [List.mem_append, List.mem_singleton]
    rintro v (hv | rfl)
    · exact hi.isToken (hmem v hv)
    · exact hn.isToken
  rw [strip_print_some hi hn, hwords, List.dropLast_concat]
  rintro ⟨⟨row, hrow, hkept⟩, -⟩
  obtain ⟨row', hrow', hencoding⟩ := ofLine?_row hi (by simp) htokens
  obtain rfl : row' = row := Option.some.inj (hrow'.symm.trans hrow)
  rw [hencoding, tokens_joined htokens, hwords] at hkept
  -- as many tokens as words, so that the note would have to be the last word
  have hlast : w = n.text := by
    simpa using hkept.eq_of_length (by simp)
  exact not_mem_of_digits hdigits (c := '>') (by decide) (by simp [hlast, Note.text])

/-- **Stripping keeps the machine code of a printed instruction exactly where no note follows
it.** -/
theorem isKept_strip_iff (hi : i.Printable) (hn : ∀ n ∈ note, n.Printable) :
    i.IsKept (LabelAddress.strip (i.print note)) ↔ note = none := by
  cases note with
  | none => exact iff_of_true (isKept_strip_none hi) rfl
  | some n => exact iff_of_false (not_isKept_strip_some hi (hn n rfl)) (by simp)

/-- A branch of one word. -/
def sampleBranch : Instruction where
  code := "\ts_cbranch_scc1 BB0_3".toList
  address := "000000001110".toList
  value := 0x1110
  words := ["BF85001C".toList]

/-- The place that the branch leads to. -/
def sampleNote : Note := ⟨"vadd".toList, "40".toList⟩

/-- The branch without and with the place that it leads to. -/
theorem isKept_strip_sampleBranch : sampleBranch.Printable ∧ sampleNote.Printable ∧
    (sampleBranch.IsKept (LabelAddress.strip (sampleBranch.print none)) ↔
      (none : Option Note) = none) ∧
    (sampleBranch.IsKept (LabelAddress.strip (sampleBranch.print (some sampleNote))) ↔
      some sampleNote = none) := by
  have hbranch : sampleBranch.Printable :=
    { no_mark := by decide
      no_opening := by decide
      no_closing := by decide
      no_comment := by decide
      address_digit := List.all_iff_forall_prop.mp (by decide)
      address_value := by decide
      one_or_two := by decide
      word_length := List.forall_mem_singleton.mpr (by decide)
      word_digit := List.forall_mem_singleton.mpr (List.all_iff_forall_prop.mp (by decide)) }
  have hnote : sampleNote.Printable :=
    ⟨List.all_iff_forall_prop.mp (by decide), List.all_iff_forall_prop.mp (by decide)⟩
  exact ⟨hbranch, hnote, isKept_strip_iff hbranch (by simp),
    isKept_strip_iff hbranch (by simpa using hnote)⟩

/-- The place behind the sample branch costs it its word. -/
theorem not_isKept_strip_sampleBranch :
    LabelAddress.strip (sampleBranch.print (some sampleNote))
      = "\ts_cbranch_scc1 BB0_3 // 000000001110: vadd+0x40>".toList ∧
    ¬ sampleBranch.IsKept (LabelAddress.strip (sampleBranch.print (some sampleNote))) := by
  have hrow : Row.ofLine? (LabelAddress.strip (sampleBranch.print (some sampleNote)))
      = some ⟨"000000001110".toList, "s_cbranch_scc1".toList, "BB0_3".toList,
        "vadd+0x40>".toList⟩ := by decide +kernel
  refine ⟨by decide +kernel, fun h => ?_⟩
  obtain ⟨row, hsome, hwords⟩ := h.encoding
  obtain rfl := Option.some.inj (hrow.symm.trans hsome)
  exact absurd hwords (by decide)

end KernelIsa.MachineCode
