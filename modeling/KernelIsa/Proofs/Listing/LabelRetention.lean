import KernelIsa.Proofs.Listing.RepeatedReduction

/-!
# Proofs/Listing/LabelRetention — which labels a reduction leaves

An edit knows two kinds of lines.  A label line stays as it is or goes, by the labels that the
covered lines name; any other line is taken to its plain form, whatever they name (`result?_edit`).
No plain form is a label (`label?_plain`), so the labels of the text left over are the named labels
among the covered lines (`reduce_lines`).

The label that a jump names is the token behind its mnemonic (`branchTarget?_eq_some_iff`), where a
comma is part of the token.  So a label stays exactly if a covered jump has it in first place
(`label_left_iff`), and a call that names it behind a register does not keep it.
-/

namespace KernelIsa

namespace Line

variable {line line' name t : Text}

/-! ## Plain forms -/

/-- Whether a line is a label. -/
def isLabel (line : Text) : Bool := (label? line).isSome

/-- What an edit makes of a line that is no label. -/
def plain (line : Text) : Text :=
  (plainLabel? line).getD (if isComment line then line else (withoutSuffix? line).getD line)

/-- A line with a space is no label. -/
theorem label?_eq_none_of_space (h : ' ' ∈ line) : label? line = none :=
  label?_eq_none_of_blank h (by decide)

theorem space_mem_of_plainLabel? (h : plainLabel? line = some line') : ' ' ∈ line' := by
  obtain ⟨before, label, after, -, rfl⟩ := plainLabel?_eq_some h
  simp

theorem space_mem_of_withoutSuffix? (h : withoutSuffix? line = some line') : ' ' ∈ line' := by
  obtain ⟨indent, d, m, t, stem, -, -, -, -, -, rfl⟩ := withoutSuffix?_eq_some h
  simp

/-- **No other line turns into a label.** -/
theorem label?_plain (h : label? line = none) : label? (plain line) = none := by
  rw [plain]
  cases hplain : plainLabel? line with
  | some line' => exact label?_eq_none_of_space (space_mem_of_plainLabel? hplain)
  | none =>
    rw [Option.getD_none]
    split
    · exact h
    · cases hsuffix : withoutSuffix? line with
      | some line' => exact label?_eq_none_of_space (space_mem_of_withoutSuffix? hsuffix)
      | none => exact h

/-! ## The label that a jump names -/

/-- Only the first token of some operands can open the address comment. -/
theorem prefix_firstToken_iff : addressMark <+: Text.firstToken t ↔ addressMark <+: t := by
  have hsplit : Text.firstToken t ++ Text.afterFirstToken t = t := List.takeWhile_append_dropWhile
  have hhead := Text.blank_head_afterFirstToken t
  cases hafter : Text.afterFirstToken t with
  | nil => rw [hafter, List.append_nil] at hsplit; rw [hsplit]
  | cons b rest =>
    rw [hafter] at hsplit hhead
    have hb : b ∉ addressMark := not_mem_addressMark_of_blank (hhead b rfl)
    conv_rhs => rw [← hsplit]
    exact (Text.prefix_append_cons_iff hb).symm

/-- The operand is the first token, unless that opens the address comment. -/
theorem operand?_eq_some_iff :
    operand? t = some name ↔ ¬ addressMark <+: name ∧ ∃ rest, Text.tokens t = name :: rest := by
  have hmark := prefix_firstToken_iff (t := Text.trimStart t)
  rw [← Text.startsWith_iff, ← Text.startsWith_iff] at hmark
  rw [operand?, Text.tokens_eq, ← Text.startsWith_iff]
  cases (Text.trimStart t).isEmpty with
  | true => simp
  | false =>
    simp only [Bool.false_or, Bool.false_eq_true, if_false, List.cons.injEq, exists_and_left,
      exists_eq', and_true]
    constructor
    · intro h
      split at h
      · cases h
      · next hno =>
        obtain rfl := Option.some.inj h
        exact ⟨mt hmark.mp hno, rfl⟩
    · rintro ⟨hno, rfl⟩
      rw [if_neg (mt hmark.mpr hno)]

/-- The line is a branch or a call, and `name` the token between blanks behind its mnemonic, which
is not that of the address comment. -/
def NamesFirst (line name : Text) : Prop := ¬ addressMark <+: name ∧
  ∃ mnemonic rest, Text.tokens line = mnemonic :: name :: rest ∧ isJump mnemonic = true

/-- **A jump names the token behind its mnemonic.** -/
theorem branchTarget?_eq_some_iff : branchTarget? line = some name ↔ NamesFirst line name := by
  rw [NamesFirst, branchTarget?_eq, Text.tokens_eq]
  cases hnil : (Text.trimStart line).isEmpty with
  | true =>
    have hjump : isJump (Text.firstToken []) = false := by decide
    rw [List.isEmpty_iff.mp hnil, hjump]
    simp
  | false =>
    simp only [Bool.false_eq_true, if_false, List.cons.injEq]
    constructor
    · intro h
      split at h
      · next hjump =>
        obtain ⟨hno, rest, hrest⟩ := operand?_eq_some_iff.mp h
        exact ⟨hno, _, rest, ⟨rfl, hrest⟩, hjump⟩
      · cases h
    · rintro ⟨hno, mnemonic, rest, ⟨rfl, hrest⟩, hjump⟩
      rw [if_pos hjump]
      exact operand?_eq_some_iff.mpr ⟨hno, rest, hrest⟩

/-! ## The operands of a line -/

/-- What stands in front of the address comment of a line. -/
def codeOf (line : Text) : Text :=
  ((Text.splitAround? addressMark line).map Prod.fst).getD line

/-- The mnemonic and the operands of a line: what stands between blanks and commas, up to the
address comment. -/
def words (line : Text) : List Text :=
  (pieces (fun c => Text.isBlank c || c = ',') (codeOf line)).filter fun w => !w.isEmpty

/-- The line is a branch or a call with `name` among its operands, in any position. -/
def Names (line name : Text) : Prop :=
  ∃ mnemonic operands, words line = mnemonic :: operands ∧ isJump mnemonic = true ∧ name ∈ operands

/-- No comma stands in the code of the line, and the address comment stands behind a blank. -/
structure IsSpaced (line : Text) : Prop where
  no_comma : ',' ∉ codeOf line
  apart : addressMark <:+: line → ∀ c ∈ (codeOf line).getLast?, Text.isBlank c

theorem not_mark_codeOf (line : Text) : ¬ addressMark <:+: codeOf line := by
  rw [codeOf]
  cases hcut : Text.splitAround? addressMark line with
  | none => exact Text.splitAround?_eq_none_iff.mp hcut
  | some parts => exact Text.not_infix_of_splitAround? (by simp [addressMark]) hcut

/-- Without commas the words are the tokens of the code. -/
theorem words_eq_tokens (h : ',' ∉ codeOf line) : words line = Text.tokens (codeOf line) := by
  have hpieces : ∀ t : Text, ',' ∉ t →
      pieces (fun c => Text.isBlank c || c = ',') t = pieces Text.isBlank t := by
    intro t ht
    induction t with
    | nil => rfl
    | cons c t ih =>
      have hc : ¬ c = ',' := fun h => ht (h ▸ List.mem_cons_self)
      simp only [pieces, ih fun h => ht (List.mem_cons_of_mem _ h), hc, decide_false, Bool.or_false]
  rw [words, hpieces _ h, Text.tokens]

/-- The tokens of a spaced line are its words and those of the address comment. -/
theorem IsSpaced.exists_tokens (h : IsSpaced line) (hne : words line ≠ []) :
    ∃ comment, Text.tokens line = words line ++ comment := by
  rw [words_eq_tokens h.no_comma] at hne ⊢
  cases hcut : Text.splitAround? addressMark line with
  | none =>
    have hcode : codeOf line = line := by rw [codeOf, hcut]; rfl
    exact ⟨[], by rw [hcode, List.append_nil]⟩
  | some parts =>
    obtain ⟨before, after⟩ := parts
    have hcode : codeOf line = before := by rw [codeOf, hcut]; rfl
    have hline := Text.splitAround?_eq_some hcut
    have hmark : addressMark <:+: line := ⟨before, after, hline.symm⟩
    have hblank := h.apart hmark
    rw [hcode] at hne hblank ⊢
    rcases List.eq_nil_or_concat before with rfl | ⟨code, b, rfl⟩
    · exact absurd rfl hne
    · have hb : Text.isBlank b := hblank b (by simp)
      refine ⟨Text.tokens (addressMark ++ after), ?_⟩
      rw [hline, List.concat_eq_append, List.append_assoc, List.append_assoc,
        List.singleton_append, Text.tokens_append_blank hb, Text.tokens_append_blank hb code []]
      exact congrArg (· ++ _) (List.append_nil _).symm

/-- **A spaced jump names its first operand.** -/
theorem IsSpaced.namesFirst {mnemonic : Text} {operands : List Text} (h : IsSpaced line)
    (hwords : words line = mnemonic :: name :: operands) (hjump : isJump mnemonic = true) :
    NamesFirst line name := by
  obtain ⟨comment, htokens⟩ := h.exists_tokens (by simp [hwords])
  have hname : name <:+: codeOf line := by
    refine Text.infix_of_mem_tokens ?_
    rw [← words_eq_tokens h.no_comma, hwords]
    exact List.mem_cons_of_mem _ List.mem_cons_self
  refine ⟨fun hmark => ?_, mnemonic, operands ++ comment, ?_, hjump⟩
  · exact not_mark_codeOf line (hmark.isInfix.trans hname)
  · rw [htokens, hwords]
    rfl

end Line

namespace Reduction

open Line

variable {size : Nat} {fragment result line name : Text} {kept lines : List Text}

/-! ## The lines left over -/

/-- Whether a line is a label that a jump among some lines names. -/
def isNamed (lines : List Text) (line : Text) : Bool :=
  (label? line).any fun name => decide (∃ jump ∈ lines, branchTarget? jump = some name)

/-- What is left of one of the kept lines: a label as it is, if it is named, and any other line in
its plain form. -/
def left? (kept : List Text) (line : Text) : Option Text :=
  if isLabel line then (if isNamed kept line then some line else none) else some (plain line)

theorem isNamed_of_label (h : label? line = some name) :
    isNamed lines line = true ↔ ∃ jump ∈ lines, branchTarget? jump = some name := by
  rw [isNamed, h, Option.any_some, decide_eq_true_eq]

theorem isNamed_iff_namesFirst (h : label? line = some name) :
    isNamed lines line = true ↔ ∃ jump ∈ lines, NamesFirst jump name := by
  simp only [isNamed_of_label h, branchTarget?_eq_some_iff]

/-- **What an edit leaves of a line**, by the labels that the kept lines name. -/
theorem result?_edit (kept : List Text) (line : Text) :
    (edit (targets kept) line).result? line = left? kept line := by
  rw [left?, isLabel]
  cases hlabel : label? line with
  | some name =>
    have hnamed : name ∈ targets kept ↔ isNamed kept line = true := by
      rw [isNamed_of_label hlabel]
      exact List.mem_filterMap
    simp only [edit_of_label hlabel, hnamed, Option.isSome_some, if_true]
    cases isNamed kept line <;> rfl
  | none =>
    rw [edit, hlabel, plain]
    dsimp only [Option.isSome_none]
    cases plainLabel? line with
    | some plain => rfl
    | none =>
      cases isComment line with
      | true => rfl
      | false => cases withoutSuffix? line <;> rfl

theorem edited_targets (kept lines : List Text) :
    edited (targets kept) lines = lines.filterMap (left? kept) :=
  List.filterMap_congr fun line _ => result?_edit kept line

/-- **The labels among the lines left over are the named ones.** -/
theorem filter_isLabel_left (kept lines : List Text) :
    (lines.filterMap (left? kept)).filter isLabel = lines.filter (isNamed kept) := by
  have hlabel : ∀ line, isNamed kept line = true → isLabel line = true := by
    intro line hnamed
    rw [isNamed] at hnamed
    rw [isLabel]
    cases hname : label? line with
    | none => rw [hname] at hnamed; cases hnamed
    | some name => rfl
  induction lines with
  | nil => rfl
  | cons line lines ih =>
    cases hline : isLabel line with
    | false =>
      have hleft : left? kept line = some (plain line) := by rw [left?, hline]; rfl
      have hplain : isLabel (plain line) = false := by
        rw [isLabel, label?_plain (Option.isNone_iff_eq_none.mp (by simpa [isLabel] using hline))]
        rfl
      have hunnamed : ¬ isNamed kept line = true := fun h => by simp [hlabel line h] at hline
      rw [List.filterMap_cons_some hleft, List.filter_cons_of_neg (by simp [hplain]),
        List.filter_cons_of_neg hunnamed, ih]
    | true =>
      cases hnamed : isNamed kept line with
      | true =>
        have hleft : left? kept line = some line := by rw [left?, hline, hnamed]; rfl
        rw [List.filterMap_cons_some hleft, List.filter_cons_of_pos hline,
          List.filter_cons_of_pos hnamed, ih]
      | false =>
        have hleft : left? kept line = none := by rw [left?, hline, hnamed]; rfl
        rw [List.filterMap_cons_none hleft, List.filter_cons_of_neg (by simp [hnamed]), ih]

/-- **The text of a reduction.**  Behind the header stands, in order, one line in its plain form for
each covered line that is no label, and each covered label that is named, as it is.  The labels read
back from the body are those labels; among all lines there are those of the header besides. -/
theorem reduce_lines (hcr : '\r' ∉ fragment)
    (hreduce : reduce fragment size = .ok (.reduced result)) :
    ∃ kept, Covers size none (bodyOf fragment) kept ∧
      result = Text.ofLines (headerOf fragment ++ kept.filterMap (left? kept)) ∧
      headerOf result = headerOf fragment ∧ (headerOf fragment).length = Fragment.headerLines ∧
      bodyOf result = kept.filterMap (left? kept) ∧
      (bodyOf result).filter isLabel = kept.filter (isNamed kept) ∧
      (Text.lines result).filter isLabel
        = (headerOf fragment).filter isLabel ++ kept.filter (isNamed kept) := by
  obtain ⟨happly, kept, hcover⟩ := cover_of_reduced hreduce
  obtain ⟨hheader, hbody⟩ := lines_apply hcr hcover happly
  rw [edited_targets] at hbody
  have houtcome := Except.ok.inj ((reduce_of_covers hcover).symm.trans hreduce)
  rw [outcome] at houtcome
  split at houtcome
  · cases houtcome
  · next htouched =>
    have hresult := Outcome.reduced.inj houtcome
    rw [edited_targets] at hresult
    have hlabels := filter_isLabel_left kept kept
    refine ⟨kept, hcover, hresult.symm, hheader,
      length_headerOf (bodyOf_ne_nil_of_touched hcover.isPrefix htouched), hbody,
      by rw [hbody, hlabels], ?_⟩
    have hlines : Text.lines result = headerOf result ++ bodyOf result :=
      (List.take_append_drop _ _).symm
    rw [hlines, List.filter_append, hheader, hbody, hlabels]

/-- A label that is named, an inline label, one that only a call names, behind its register, and a
jump behind the end of the code. -/
def sampleJumps : Text := Text.ofLines ["; k".toList, "; k".toList, "A:".toList, "0 <B>:".toList,
  "B:".toList, "\ts_branch_e32 A // 0: BF".toList, "\ts_call_b64 s[0:1], B // 4: BA".toList,
  "\ts_branch B // 8: BF".toList]

/-- The sample, reduced to its first two instructions. -/
def sampleLeft : Text := Text.ofLines ["; k".toList, "; k".toList, "A:".toList, "0 B:".toList,
  "\ts_branch A     // 0: BF".toList, "\ts_call_b64 s[0:1], B // 4: BA".toList]

/-- The lines left of the sample. -/
theorem reduce_lines_sampleJumps : '\r' ∉ sampleJumps ∧
    reduce sampleJumps 8 = .ok (.reduced sampleLeft) ∧
    ∃ kept, Covers 8 none (bodyOf sampleJumps) kept ∧
      sampleLeft = Text.ofLines (headerOf sampleJumps ++ kept.filterMap (left? kept)) ∧
      headerOf sampleLeft = headerOf sampleJumps ∧
      (headerOf sampleJumps).length = Fragment.headerLines ∧
      bodyOf sampleLeft = kept.filterMap (left? kept) ∧
      (bodyOf sampleLeft).filter isLabel = kept.filter (isNamed kept) ∧
      (Text.lines sampleLeft).filter isLabel
        = (headerOf sampleJumps).filter isLabel ++ kept.filter (isNamed kept) := by
  have hcr : '\r' ∉ sampleJumps := by decide +kernel
  have hreduce : reduce sampleJumps 8 = .ok (.reduced sampleLeft) := by decide +kernel
  exact ⟨hcr, hreduce, reduce_lines hcr hreduce⟩

/-! ## The labels that stay -/

/-- **A kept label stays exactly if a kept jump names it first.**  That is so for the first operand
of a jump without commas whose address comment stands behind a blank.  A line that ends in a
carriage return can be read back as a label, so only without them is a label in the text one that
stayed; and if an address cannot be read, the text is as it was. -/
theorem label_left_iff (happly : apply size fragment = .ok result) :
    (coverFrom size none (bodyOf fragment) = .ok none ∧ result = fragment) ∨
      ∃ kept, Covers size none (bodyOf fragment) kept ∧
        ∀ line ∈ kept, ∀ name, label? line = some name →
          ((∃ jump ∈ kept, NamesFirst jump name) → line ∈ bodyOf result) ∧
          ((∀ line ∈ bodyOf fragment, '\r' ∉ line) → line ∈ bodyOf result →
            ∃ jump ∈ kept, NamesFirst jump name) ∧
          ∀ jump ∈ kept, IsSpaced jump → ∀ mnemonic operands,
            words jump = mnemonic :: name :: operands → isJump mnemonic = true →
              line ∈ bodyOf result := by
  cases hcover : coverFrom size none (bodyOf fragment) with
  | error e => cases happly.symm.trans (apply_of_coverFrom_error hcover)
  | ok covered =>
    cases covered with
    | none =>
      exact .inl ⟨rfl, Except.ok.inj (happly.symm.trans (apply_of_coverFrom_none hcover))⟩
    | some kept =>
      have hcovers := covers_of_coverFrom hcover
      refine .inr ⟨kept, hcovers, fun line hline name hlabel => ?_⟩
      have hstays : (∃ jump ∈ kept, NamesFirst jump name) → line ∈ bodyOf result := by
        intro hnamed
        obtain ⟨rfl, -, -⟩ := label?_eq_some_iff.mp hlabel
        refine mem_bodyOf_apply hcovers happly ?_ (by simp)
        have hnamed := (isNamed_iff_namesFirst hlabel).mpr hnamed
        rw [edited_targets]
        refine List.mem_filterMap.mpr ⟨_, hline, ?_⟩
        rw [left?, isLabel, hlabel, hnamed]
        rfl
      refine ⟨hstays, fun hcr hleft => ?_, fun jump hjump hspaced mnemonic operands hwords hkind =>
        hstays ⟨jump, hjump, hspaced.namesFirst hwords hkind⟩⟩
      rw [bodyOf_apply hcr hcovers happly, edited_targets] at hleft
      have hmem : line ∈ (kept.filterMap (left? kept)).filter isLabel :=
        List.mem_filter.mpr ⟨hleft, by rw [isLabel, hlabel]; rfl⟩
      rw [filter_isLabel_left] at hmem
      exact (isNamed_iff_namesFirst hlabel).mp (List.mem_filter.mp hmem).2

/-- The labels left of the sample. -/
theorem label_left_iff_sampleJumps : apply 8 sampleJumps = .ok sampleLeft ∧
    ((coverFrom 8 none (bodyOf sampleJumps) = .ok none ∧ sampleLeft = sampleJumps) ∨
      ∃ kept, Covers 8 none (bodyOf sampleJumps) kept ∧
        ∀ line ∈ kept, ∀ name, label? line = some name →
          ((∃ jump ∈ kept, NamesFirst jump name) → line ∈ bodyOf sampleLeft) ∧
          ((∀ line ∈ bodyOf sampleJumps, '\r' ∉ line) → line ∈ bodyOf sampleLeft →
            ∃ jump ∈ kept, NamesFirst jump name) ∧
          ∀ jump ∈ kept, IsSpaced jump → ∀ mnemonic operands,
            words jump = mnemonic :: name :: operands → isJump mnemonic = true →
              line ∈ bodyOf sampleLeft) := by
  have happly : apply 8 sampleJumps = .ok sampleLeft := by decide +kernel
  exact ⟨happly, label_left_iff happly⟩

/-- A kept call does not keep the label behind its register. -/
theorem not_left_sampleJumps : apply 8 sampleJumps = .ok sampleLeft ∧
    ∃ kept, Covers 8 none (bodyOf sampleJumps) kept ∧ "B:".toList ∈ kept ∧
      label? "B:".toList = some "B".toList ∧ (∃ jump ∈ kept, Names jump "B".toList) ∧
      "B:".toList ∉ Text.lines sampleLeft := by
  refine ⟨by decide +kernel, (bodyOf sampleJumps).take 5,
    covers_of_coverFrom (by decide +kernel), by decide +kernel, by decide,
    ⟨"\ts_call_b64 s[0:1], B // 4: BA".toList, by decide +kernel, "s_call_b64".toList,
      ["s[0:1]".toList, "B".toList], by decide +kernel, by decide, by decide⟩, by decide +kernel⟩

end Reduction

end KernelIsa
