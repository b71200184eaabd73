import KernelIsa.Proofs.Listing.RegularLine
import KernelIsa.Proofs.Listing.RowContents

/-!
# Proofs/Listing/InlineLabels — the address in front of an inline label

A reduction takes the angle brackets off an inline label.  It finds the label behind the first ` <`,
but takes the address to end at the first space of the line (`plainLabel?_print`).  That is the same
place where no space stands in the indent; otherwise the line starts with a part of the indent, and
the address is lost (`plain_eq_iff`).  The row of the line is that of the label all the same, unless
the label is then taken for a comment (`ofLine?_plain_iff`).  `reduce_inlineLabel` puts the line
into the text that a reduction leaves.
-/

namespace KernelIsa

open Text

/-! ## Rows of labels -/

/-- **A line that ends in a colon has the row of its last token**, if it holds no address mark and
is no comment. -/
theorem Row.ofLine?_of_colon {line : Text} (hmark : ¬ Line.addressMark <:+: line)
    (hcomment : ¬ Line.isComment (trim line)) (hcolon : (trim line).getLast? = some ':') :
    ofLine? line = some (ofLabel (lastToken (trim line))) := by
  obtain ⟨lead, behind, hline, -⟩ := exists_trim line
  have hcut : splitAround? Line.addressMark (trim line) = none :=
    splitAround?_eq_none_iff.mpr fun hin => hmark (hin.trans ⟨lead, behind, hline.symm⟩)
  have hfull : (trim line).isEmpty = false := by
    rw [List.isEmpty_eq_false_iff]
    rintro hnil
    rw [hnil] at hcolon
    cases hcolon
  rw [ofLine?]
  simp only [hfull, hcomment, hcut, hcolon, Bool.or_self, Bool.false_eq_true, if_false, if_true]

/-- The line without its angle brackets. -/
def Line.withoutBrackets (line : Text) : Text := line.filter fun c => c ≠ '<' && c ≠ '>'

/-- A label in angle brackets behind its address and an indent. -/
structure InlineLabel where
  indent : Text
  address : Text
  label : Text
  deriving DecidableEq, Repr

namespace InlineLabel

/-- The line of an inline label. -/
def print (l : InlineLabel) : Text :=
  l.indent ++ l.address ++ ' ' :: '<' :: (l.label ++ ['>', ':'])

/-- What a disassembler prints: blanks, hexadecimal digits, and a label without blanks, slashes and
brackets. -/
structure Printable (l : InlineLabel) : Prop where
  indent_blank : ∀ c ∈ l.indent, isBlank c
  address_ne_nil : l.address ≠ []
  address_digit : ∀ c ∈ l.address, (Word.digit? 16 c).isSome
  label_ne_nil : l.label ≠ []
  label_plain : ∀ c ∈ l.label, ¬ isBlank c ∧ c ∉ ['/', '<', '>']

instance (l : InlineLabel) : Decidable l.Printable :=
  decidable_of_iff
    (l.indent.all isBlank ∧ l.address ≠ [] ∧ l.address.all (fun c => (Word.digit? 16 c).isSome) ∧
      l.label ≠ [] ∧ l.label.all fun c => !isBlank c && decide (c ∉ ['/', '<', '>']))
    ⟨fun ⟨hi, ha, hd, hl, hp⟩ => ⟨by simpa using hi, ha, by simpa using hd, hl, by simpa using hp⟩,
      fun ⟨hi, ha, hd, hl, hp⟩ => ⟨by simpa using hi, ha, by simpa using hd, hl, by simpa using hp⟩⟩

/-- The line that a reduction writes for an inline label: what stands in front of the first space,
and the label. -/
def plain (l : InlineLabel) : Text :=
  (l.indent ++ l.address).takeWhile (· ≠ ' ') ++ ' ' :: (l.label ++ [':'])

variable {l : InlineLabel} {c : Char}

/-! ## The rewritten line -/

theorem Printable.not_mem_lead (h : l.Printable) (hblank : isBlank c = false)
    (hdigit : (Word.digit? 16 c).isSome = false) : c ∉ l.indent ++ l.address := by
  intro hc
  rcases List.mem_append.mp hc with hc | hc
  · exact absurd (h.indent_blank c hc) (by rw [hblank]; decide)
  · exact Reduction.not_mem_hex h.address_digit hdigit hc

theorem Printable.not_mem_label (h : l.Printable) (hc : c ∈ ['/', '<', '>']) : c ∉ l.label :=
  fun hmem => (h.label_plain c hmem).2 hc

theorem Printable.exists_digit (h : l.Printable) :
    ∃ d address, l.address = d :: address ∧ (Word.digit? 16 d).isSome := by
  obtain ⟨d, address, haddress⟩ := List.exists_cons_of_ne_nil h.address_ne_nil
  exact ⟨d, address, haddress, h.address_digit d (haddress ▸ List.mem_cons_self)⟩

/-- **The address is taken to end at the first space.** -/
theorem Printable.plainLabel?_print (h : l.Printable) :
    Line.plainLabel? l.print = some l.plain := by
  refine Line.plainLabel?_opened (by simp [h.address_ne_nil]) (fun hin => ?_)
    (h.not_mem_label (by decide))
  exact h.not_mem_lead (by decide) (by decide) (hin.subset (by decide : '<' ∈ [' ', '<']))

/-- An inline label is always rewritten. -/
theorem Printable.edit_print (h : l.Printable) (named : List Text) :
    Reduction.edit named l.print = .replace l.plain := by
  have hlabel : Line.label? l.print = none :=
    Line.label?_eq_none_of_blank (c := ' ') (by simp [print]) (by decide)
  exact Reduction.edit_of_plainLabel hlabel h.plainLabel?_print

theorem Printable.withoutBrackets_print (h : l.Printable) : Line.withoutBrackets l.print
    = l.indent ++ l.address ++ ' ' :: (l.label ++ [':']) := by
  have hplain {t : Text} (hopen : '<' ∉ t) (hclose : '>' ∉ t) :
      t.filter (fun c => c ≠ '<' && c ≠ '>') = t := List.filter_eq_self.mpr fun c hc => by
    have hc' : c ≠ '<' ∧ c ≠ '>' := ⟨fun e => hopen (e ▸ hc), fun e => hclose (e ▸ hc)⟩
    simpa using hc'
  have hlead := hplain (h.not_mem_lead (by decide) (by decide))
    (h.not_mem_lead (by decide) (by decide))
  have hlabel := hplain (h.not_mem_label (by decide)) (h.not_mem_label (by decide))
  rw [Line.withoutBrackets, print, List.filter_append, hlead, List.filter_cons_of_pos (by decide),
    List.filter_cons_of_neg (by decide), List.filter_append, hlabel]
  rfl

/-- Without a space in the indent the address is kept. -/
theorem Printable.plain_of_not_mem (h : l.Printable) (hspace : ' ' ∉ l.indent) :
    l.plain = l.indent ++ l.address ++ ' ' :: (l.label ++ [':']) := by
  have haddress : ' ' ∉ l.address := Reduction.not_mem_hex h.address_digit (by decide)
  have hlead : (l.indent ++ l.address).takeWhile (· ≠ ' ') = l.indent ++ l.address := by
    refine List.takeWhile_eq_self_iff.mpr fun c hc => decide_eq_true fun e => ?_
    exact (List.mem_append.mp (e ▸ hc)).elim hspace haddress
  rw [plain, hlead]

/-- Behind an indent with a space only blanks are left in front of the label. -/
theorem Printable.plain_of_mem (h : l.Printable) (hspace : ' ' ∈ l.indent) :
    ∃ lead, (∀ c ∈ lead, isBlank c) ∧ l.plain = lead ++ ' ' :: (l.label ++ [':']) := by
  obtain ⟨lead, behind, hindent⟩ := List.append_of_mem hspace
  have htake : (l.indent ++ l.address).takeWhile (· ≠ ' ') = lead.takeWhile (· ≠ ' ') := by
    rw [hindent, List.append_assoc]
    exact takeWhile_append_cons (by decide) lead _
  refine ⟨lead.takeWhile (· ≠ ' '), fun c hc => h.indent_blank c ?_, by rw [plain, htake]⟩
  rw [hindent]
  exact List.mem_append_left _ ((List.takeWhile_sublist _).subset hc)

/-- **The line loses its brackets and nothing else exactly where no space stands in the indent.** -/
theorem Printable.plain_eq_iff (h : l.Printable) :
    l.plain = Line.withoutBrackets l.print ↔ ' ' ∉ l.indent := by
  rw [h.withoutBrackets_print]
  refine ⟨fun heq hspace => ?_, h.plain_of_not_mem⟩
  obtain ⟨lead, hlead, hplain⟩ := h.plain_of_mem hspace
  rw [hplain, List.append_left_inj] at heq
  -- a digit of the address would be a blank
  obtain ⟨d, address, haddress, hd⟩ := h.exists_digit
  exact Word.not_isBlank_of_digit? hd (hlead d (heq ▸ by simp [haddress]))

/-! ## The row of the rewritten line -/

/-- The row of a label behind some blanks and a text that starts with no blank. -/
theorem Printable.ofLine?_behind (h : l.Printable) {lead front : Text}
    (hlead : ∀ c ∈ lead, isBlank c) (hslash : '/' ∉ front)
    (hhead : ∀ c ∈ (front ++ (l.label ++ [':'])).head?, ¬ isBlank c ∧ c ≠ ';')
    (hlast : ∀ c ∈ front.getLast?, isBlank c) :
    Row.ofLine? (lead ++ (front ++ (l.label ++ [':']))) = some (Row.ofLabel (l.label ++ [':'])) := by
  have hword : ∀ c ∈ l.label ++ [':'], ¬ isBlank c := List.forall_mem_append.mpr
    ⟨fun c hc => (h.label_plain c hc).1, List.forall_mem_singleton.mpr (by decide)⟩
  have hcolon : (front ++ (l.label ++ [':'])).getLast? = some ':' := by
    rw [← List.append_assoc]
    exact List.getLast?_concat
  have htrim : trim (lead ++ (front ++ (l.label ++ [':']))) = front ++ (l.label ++ [':']) := by
    rw [trim_append_of_blank hlead]
    refine trim_eq_self (fun c hc => (hhead c hc).1) fun c hc => ?_
    rw [← Option.some.inj (hcolon.symm.trans hc)]
    decide
  have htoken : lastToken (front ++ (l.label ++ [':'])) = l.label ++ [':'] := by
    rcases List.eq_nil_or_concat front with rfl | ⟨front, b, rfl⟩
    · exact lastToken_eq_self hword
    · rw [List.concat_eq_append, List.append_assoc]
      exact lastToken_append_blank (hlast b (by simp)) hword
  have hmark : ¬ Line.addressMark <:+: lead ++ (front ++ (l.label ++ [':'])) := by
    intro hin
    have hmem : '/' ∈ lead ++ (front ++ (l.label ++ [':'])) := hin.subset (by decide)
    simp only [List.mem_append, List.mem_singleton] at hmem
    rcases hmem with hmem | hmem | hmem | hmem
    · exact absurd (hlead _ hmem) (by decide)
    · exact hslash hmem
    · exact h.not_mem_label (by decide) hmem
    · exact absurd hmem (by decide)
  have hcomment : ¬ Line.isComment (trim (lead ++ (front ++ (l.label ++ [':'])))) := by
    rw [htrim, Line.isComment, decide_eq_true_iff]
    exact fun hsemicolon => (hhead ';' hsemicolon).2 rfl
  rw [Row.ofLine?_of_colon hmark hcomment (by rw [htrim, hcolon]), htrim, htoken]

/-- Behind its address a label has its row. -/
theorem Printable.ofLine?_plain_of_not_mem (h : l.Printable) (hspace : ' ' ∉ l.indent) :
    Row.ofLine? l.plain = some (Row.ofLabel (l.label ++ [':'])) := by
  have hline : l.plain = l.indent ++ (l.address ++ [' '] ++ (l.label ++ [':'])) := by
    simp [h.plain_of_not_mem hspace]
  obtain ⟨d, address, haddress, hd⟩ := h.exists_digit
  rw [hline]
  refine h.ofLine?_behind h.indent_blank ?_ (fun c hc => ?_) fun c hc => ?_
  · simpa using Reduction.not_mem_hex h.address_digit (by decide)
  · obtain rfl : d = c := by simpa [haddress] using hc
    refine ⟨Word.not_isBlank_of_digit? hd, ?_⟩
    rintro rfl
    exact absurd hd (by decide)
  · obtain rfl : ' ' = c := by simpa using hc
    decide

/-- Alone behind blanks it has its row, unless it is taken for a comment. -/
theorem Printable.ofLine?_plain_of_mem (h : l.Printable) (hspace : ' ' ∈ l.indent) :
    Row.ofLine? l.plain = some (Row.ofLabel (l.label ++ [':'])) ↔ l.label.head? ≠ some ';' := by
  obtain ⟨e, label, hlabel⟩ := List.exists_cons_of_ne_nil h.label_ne_nil
  obtain ⟨lead, hlead, hplain⟩ := h.plain_of_mem hspace
  have hblank : ∀ c ∈ lead ++ [' '], isBlank c :=
    List.forall_mem_append.mpr ⟨hlead, List.forall_mem_singleton.mpr (by decide)⟩
  have hline : l.plain = lead ++ [' '] ++ ([] ++ (l.label ++ [':'])) := by simp [hplain]
  have he : ¬ isBlank e := (h.label_plain e (hlabel ▸ List.mem_cons_self)).1
  rw [hline]
  refine ⟨fun hrow hsemicolon => ?_, fun hhead => ?_⟩
  · obtain rfl : e = ';' := by simpa [hlabel] using hsemicolon
    have hsilent : Line.isSilent (trim (lead ++ [' '] ++ ([] ++ (l.label ++ [':'])))) := by
      rw [trim_append_of_blank hblank, hlabel, List.nil_append, List.cons_append,
        trim_cons_of_not he, Line.isSilent]
      rfl
    rw [Row.ofLine?_eq_none_iff.mpr hsilent] at hrow
    cases hrow
  · refine h.ofLine?_behind hblank List.not_mem_nil (fun c hc => ?_) (by simp)
    obtain rfl : e = c := by simpa [hlabel] using hc
    exact ⟨he, fun hc' => hhead (by simp [hlabel, hc'])⟩

/-- **The row of the line is that of the label**, unless a label that starts with a semicolon is
left alone behind blanks. -/
theorem Printable.ofLine?_plain_iff (h : l.Printable) :
    Row.ofLine? l.plain = some (Row.ofLabel (l.label ++ [':'])) ↔
      (' ' ∈ l.indent → l.label.head? ≠ some ';') := by
  by_cases hspace : ' ' ∈ l.indent
  · rw [h.ofLine?_plain_of_mem hspace, forall_prop_of_true hspace]
  · exact iff_of_true (h.ofLine?_plain_of_not_mem hspace) fun hmem => absurd hmem hspace

end InlineLabel

namespace Reduction

variable {size : Nat} {fragment : Text} {l : InlineLabel} {front behind : List Text}

/-- **What a reduction writes for a covered inline label.**  One line stands in its place in the
text that is left.  It is the line without its brackets exactly if no space stands in the indent,
and it has the row of the label unless there is one and the label starts with a semicolon. -/
theorem reduce_inlineLabel (hl : l.Printable)
    (hcover : Covers size none (bodyOf fragment) (front ++ l.print :: behind)) :
    ∃ line, reduce fragment size = .ok (.reduced (Text.ofLines (headerOf fragment
        ++ (edited (targets (front ++ l.print :: behind)) front
          ++ line :: edited (targets (front ++ l.print :: behind)) behind)))) ∧
      (line = Line.withoutBrackets l.print ↔ ' ' ∉ l.indent) ∧
      (Row.ofLine? line = some (Row.ofLabel (l.label ++ [':'])) ↔
        (' ' ∈ l.indent → l.label.head? ≠ some ';')) := by
  have hedit := hl.edit_print (targets (front ++ l.print :: behind))
  have htouched : ¬ Untouched (bodyOf fragment) (front ++ l.print :: behind) := by
    rintro ⟨-, hkeep⟩
    cases hedit.symm.trans (hkeep l.print (by simp))
  refine ⟨l.plain, ?_, hl.plain_eq_iff, hl.ofLine?_plain_iff⟩
  rw [reduce_eq_reduced_iff]
  refine ⟨_, hcover, htouched, ?_⟩
  have hline : (edit (targets (front ++ l.print :: behind)) l.print).result? l.print
      = some l.plain := by
    rw [hedit]
    rfl
  rw [← edited_cons_some hline, ← edited_append]

/-- The lines of a kernel with a label between its two instructions. -/
def labelled (line : Text) : List Text :=
  ["\ts_nop 0 // 000000001000: BF800000".toList, line,
    "\ts_endpgm // 000000001004: BF810000".toList]

/-- The fragment of these lines. -/
def labelledKernel (line : Text) : Text :=
  Fragment.withHeader "k".toList (Text.ofLines (labelled line))

/-- A label behind a tab. -/
def tabbedLabel : InlineLabel := ⟨"\t".toList, "1004".toList, "BB0_3".toList⟩

/-- The same label behind two spaces. -/
def spacedLabel : InlineLabel := ⟨"  ".toList, "1004".toList, "BB0_3".toList⟩

/-- A label that starts with a semicolon, behind a space. -/
def semicolonLabel : InlineLabel := ⟨" ".toList, "1004".toList, ";3".toList⟩

/-- Behind a tab the address is kept. -/
theorem reduce_inlineLabel_tabbedLabel : tabbedLabel.Printable ∧
    Covers 8 none (bodyOf (labelledKernel tabbedLabel.print)) (labelled tabbedLabel.print) ∧
    ∃ line, reduce (labelledKernel tabbedLabel.print) 8 = .ok (.reduced (labelledKernel line)) ∧
      line = Line.withoutBrackets tabbedLabel.print ∧
      Row.ofLine? line = some (Row.ofLabel "BB0_3:".toList) := by
  have hl : tabbedLabel.Printable := by decide
  have hcover : Covers 8 none (bodyOf (labelledKernel tabbedLabel.print))
      (labelled tabbedLabel.print) := covers_of_coverFrom (by decide +kernel)
  have hspace : ' ' ∉ tabbedLabel.indent := by decide
  obtain ⟨line, hreduce, hline, hrow⟩ := @reduce_inlineLabel 8 _ tabbedLabel
    ((labelled tabbedLabel.print).take 1) ((labelled tabbedLabel.print).drop 2) hl hcover
  refine ⟨hl, hcover, line, ?_, hline.mpr hspace, hrow.mpr fun hmem => absurd hmem hspace⟩
  rw [hreduce, hline.mpr hspace]
  decide +kernel

/-- Behind spaces the address is lost, and the row of a label with a semicolon too. -/
theorem not_keepsAddress_spacedLabel :
    (spacedLabel.Printable ∧
      Covers 8 none (bodyOf (labelledKernel spacedLabel.print)) (labelled spacedLabel.print) ∧
      reduce (labelledKernel spacedLabel.print) 8
        = .ok (.reduced (labelledKernel " BB0_3:".toList)) ∧
      Line.withoutBrackets spacedLabel.print = "  1004 BB0_3:".toList) ∧
    semicolonLabel.Printable ∧
      Covers 8 none (bodyOf (labelledKernel semicolonLabel.print))
        (labelled semicolonLabel.print) ∧
      reduce (labelledKernel semicolonLabel.print) 8
        = .ok (.reduced (labelledKernel " ;3:".toList)) ∧
      Row.ofLine? " ;3:".toList = none := by
  exact ⟨⟨by decide, covers_of_coverFrom (by decide +kernel), by decide +kernel, by decide +kernel⟩,
    by decide, covers_of_coverFrom (by decide +kernel), by decide +kernel, by decide +kernel⟩

end Reduction

end KernelIsa
