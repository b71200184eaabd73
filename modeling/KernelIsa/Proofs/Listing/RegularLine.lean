import KernelIsa.Proofs.Listing.LineForms
import KernelIsa.Proofs.Listing.ReducedText

/-!
# Proofs/Listing/RegularLine — the lines that a disassembler prints

A `Regular` line is blank, a comment, a label, an inline label, or an instruction with its operands
and address comment.  Editing such a line drops a label that nothing names, or leaves a line that is
settled (`Regular.label_or_settled`): it says the same about addresses and jumps as before, and no
edit changes it again.
-/

namespace KernelIsa.Reduction

open Line

variable {line line' indent mnemonic operands t : Text} {named : List Text} {c : Char}

/-! ## Forms of lines -/

/-- The mnemonic of an instruction; taking off one encoding suffix leaves a mnemonic without any. -/
structure IsMnemonic (mnemonic : Text) : Prop where
  ne_nil : mnemonic ≠ []
  no_blank : ∀ c ∈ mnemonic, ¬ Text.isBlank c
  no_sign : ∀ c ∈ mnemonic, c ∉ [';', ':', '/', '<', '>']
  not_suffix : mnemonic ∉ encodingSuffixes
  not_stacked : ∀ s ∈ encodingSuffixes, ∀ s' ∈ encodingSuffixes, ¬ s ++ s' <:+ mnemonic

/-- What follows a mnemonic in front of the address comment: nothing, or a space and operands. -/
structure IsCode (code : Text) : Prop where
  spaced : ∀ c ∈ code.head?, c = ' '
  no_mark : ¬ addressMark <:+: code
  no_bracket : '<' ∉ code

/-- What follows a mnemonic on its line; the address comment, if there is one, stands behind a
space. -/
inductive IsOperands : Text → Prop
  | bare {code : Text} (hcode : IsCode code) : IsOperands code
  | located {code comment : Text} (hcode : IsCode code) (hcomment : '<' ∉ comment) :
    IsOperands (code ++ ' ' :: (addressMark ++ comment))

/-- A line of a disassembly. -/
inductive Regular : Text → Prop
  | blank {line : Text} (h : ∀ c ∈ line, Text.isBlank c) : Regular line
  | comment {t : Text} (h : ¬ ['>', ':'] <:+: t) : Regular (';' :: ' ' :: t)
  | label {line name : Text} (h : label? line = some name) (hmark : ¬ addressMark <:+: line) :
    Regular line
  | inlineLabel {address label : Text} (hne : address ≠ [])
      (haddress : ∀ c ∈ address, (Word.digit? 16 c).isSome) (hlabel : label ≠ [])
      (hplain : ∀ c ∈ label, ¬ Text.isBlank c ∧ c ∉ ['<', '>', '/']) :
    Regular (address ++ ' ' :: '<' :: (label ++ ['>', ':']))
  | instruction {indent mnemonic operands : Text} (hi : ∀ c ∈ indent, c = ' ' ∨ c = '\t')
      (hm : IsMnemonic mnemonic) (ho : IsOperands operands) :
    Regular (indent ++ mnemonic ++ operands)

/-- `line'` is what every edit leaves of `line`; it lies where `line` lies, jumps where `line`
jumps, and no edit changes it. -/
structure Settled (line line' : Text) : Prop where
  edit_eq : ∀ named, (edit named line).result? line = some line'
  keep : ∀ named, edit named line' = .keep
  target : branchTarget? line' = branchTarget? line
  place : place line' = place line

theorem Settled.refl (h : ∀ named, edit named line = .keep) : Settled line line where
  edit_eq named := by rw [h named]; rfl
  keep := h
  target := rfl
  place := rfl

/-! ## Edits by the form of the line -/

theorem edit_eq_keep (hl : label? line = none) (hp : plainLabel? line = none)
    (h : isComment line = true ∨ withoutSuffix? line = none) : edit named line = .keep := by
  rw [edit, hl, hp]
  rcases h with h | h
  · rw [h]
    rfl
  · rw [h]
    cases isComment line <;> rfl

theorem edit_of_plainLabel (hl : label? line = none) (hp : plainLabel? line = some line') :
    edit named line = .replace line' := by
  rw [edit, hl, hp]

theorem edit_of_withoutSuffix (hl : label? line = none) (hp : plainLabel? line = none)
    (hc : isComment line = false) (hs : withoutSuffix? line = some line') :
    edit named line = .replace line' := by
  rw [edit, hl, hp, hc, hs]
  rfl

/-! ## Blank lines and comments -/

theorem settled_blank (h : ∀ c ∈ line, Text.isBlank c) : Settled line line := by
  have hnot : ∀ c, ¬ Text.isBlank c → c ∉ line := fun c hc hmem => hc (h c hmem)
  have hl : label? line = none := by
    rw [Option.eq_none_iff_forall_ne_some]
    intro name hname
    obtain ⟨rfl, -⟩ := label?_eq_some_iff.mp hname
    exact hnot ':' (by decide) (by simp)
  have hp : plainLabel? line = none := plainLabel?_eq_none_of_no_opening fun hin =>
    hnot '<' (by decide) (hin.subset (by simp))
  have hs : withoutSuffix? line = none := by
    rw [← List.append_nil line]
    exact withoutSuffix?_eq_none_of_no_space h List.not_mem_nil
  exact .refl fun named => edit_eq_keep hl hp (.inr hs)

theorem settled_comment (h : ¬ ['>', ':'] <:+: t) :
    Settled (';' :: ' ' :: t) (';' :: ' ' :: t) := by
  have hl : label? (';' :: ' ' :: t) = none :=
    label?_eq_none_of_blank (c := ' ') (by simp) (by decide)
  have hlead : ['>', ':'] <:+: [';', ' '] ++ t ↔ ['>', ':'] <:+: t :=
    Text.infix_append_iff_of_disjoint_left (by simp) (by simp)
  have hp : plainLabel? (';' :: ' ' :: t) = none :=
    plainLabel?_eq_none_of_no_closing (mt hlead.mp h)
  exact .refl fun named => edit_eq_keep hl hp (.inl rfl)

/-! ## Labels -/

/-- A label line names no target and lies nowhere. -/
theorem target_and_place_of_label {name : Text} (h : label? line = some name)
    (hmark : ¬ addressMark <:+: line) : branchTarget? line = none ∧ place line = .absent := by
  obtain ⟨rfl, -, hname⟩ := label?_eq_some_iff.mp h
  have htoken : ∀ c ∈ name ++ [':'], ¬ Text.isBlank c := by
    intro c hc
    rcases List.mem_append.mp hc with hc | hc
    · exact (hname c hc).1
    · rw [List.mem_singleton.mp hc]
      decide
  have htarget : branchTarget? ([] ++ (name ++ [':'])) = none :=
    branchTarget?_eq_none_of_token (by simp) htoken
  refine ⟨htarget, ?_⟩
  rw [place, location_eq_absent_of_not_infix hmark, ite_self]

/-- A row of hexadecimal digits spells no branch and no call. -/
theorem isJump_hex {address : Text} (h : ∀ c ∈ address, (Word.digit? 16 c).isSome) :
    isJump address = false := by
  have hbranch : ¬ "branch".toList <:+: address := fun hin =>
    absurd (h 'r' (hin.subset (by decide))) (by decide)
  have hcall : ¬ "call".toList <:+: address := fun hin =>
    absurd (h 'l' (hin.subset (by decide))) (by decide)
  rw [isJump, Bool.or_eq_false_iff]
  exact ⟨Bool.eq_false_iff.mpr (mt Text.hasMark_iff.mp hbranch),
    Bool.eq_false_iff.mpr (mt Text.hasMark_iff.mp hcall)⟩

theorem stem?_hex {address : Text} (h : ∀ c ∈ address, (Word.digit? 16 c).isSome) :
    stem? address = none := by
  rw [stem?_eq_none_iff]
  intro suffix hsuffix hin
  have hline : '_' ∈ suffix := by
    rcases List.mem_pair.mp hsuffix with rfl | rfl <;> decide
  exact absurd (h '_' (hin.subset hline)) (by decide)

section

variable {address label : Text} (hne : address ≠ [])
  (haddress : ∀ c ∈ address, (Word.digit? 16 c).isSome)

include haddress in
theorem not_mem_hex (hc : (Word.digit? 16 c).isSome = false) : c ∉ address := fun hmem =>
  absurd (haddress c hmem) (by rw [hc]; decide)

include hne haddress in
theorem branchTarget?_hex (t : Text) : branchTarget? (address ++ ' ' :: t) = none := by
  have hblank : ∀ c ∈ address, ¬ Text.isBlank c := fun c hc =>
    Word.not_isBlank_of_digit? (haddress c hc)
  have h : branchTarget? ([] ++ address ++ ' ' :: t) = _ :=
    branchTarget?_append (by simp) hne hblank (by decide)
  rw [List.nil_append, isJump_hex haddress] at h
  exact h

include hne haddress in
theorem withoutSuffix?_hex (t : Text) : withoutSuffix? (address ++ ' ' :: t) = none := by
  have hspace : ' ' ∉ address := not_mem_hex haddress (by decide)
  obtain ⟨d, m, rfl⟩ := List.exists_cons_of_ne_nil hne
  have hd : ¬ Text.isBlank d := Word.not_isBlank_of_digit? (haddress d List.mem_cons_self)
  have h : withoutSuffix? ([] ++ d :: m ++ ' ' :: t) = _ :=
    withoutSuffix?_append (by simp) hd hspace
  rw [List.nil_append, stem?_hex haddress] at h
  exact h

include haddress in
theorem place_hex (ht : '/' ∉ t) : place (address ++ ' ' :: t) = .absent := by
  have hslash : '/' ∉ address ++ ' ' :: t := by
    simpa using ⟨not_mem_hex haddress (by decide), ht⟩
  rw [place, location_eq_absent_of_not_infix fun hin => hslash (hin.subset (by decide)), ite_self]

include hne haddress in
theorem settled_inlineLabel (hplain : ∀ c ∈ label, ¬ Text.isBlank c ∧ c ∉ ['<', '>', '/']) :
    Settled (address ++ ' ' :: '<' :: (label ++ ['>', ':']))
      (address ++ ' ' :: (label ++ [':'])) := by
  have hlabel : ∀ c ∈ label, c ≠ '<' ∧ c ≠ '>' ∧ c ≠ '/' := fun c hc => by
    simpa using (hplain c hc).2
  have hslash : '/' ∉ label := fun hc => (hlabel '/' hc).2.2 rfl
  have hopen : '<' ∉ address ++ ' ' :: (label ++ [':']) := by
    simpa using ⟨not_mem_hex haddress (by decide), fun hc => (hlabel '<' hc).1 rfl⟩
  have hnot : ∀ t : Text, label? (address ++ ' ' :: t) = none := fun t =>
    label?_eq_none_of_blank (c := ' ') (by simp) (by decide)
  refine ⟨fun named => ?_, fun named => ?_, ?_, ?_⟩
  · rw [edit_of_plainLabel (hnot _) (plainLabel?_append hne (not_mem_hex haddress (by decide))
      fun hc => (hlabel '>' hc).2.1 rfl)]
    rfl
  · exact edit_eq_keep (hnot _)
      (plainLabel?_eq_none_of_no_opening fun hin => hopen (hin.subset (by decide)))
      (.inr (withoutSuffix?_hex hne haddress _))
  · rw [branchTarget?_hex hne haddress, branchTarget?_hex hne haddress]
  · rw [place_hex haddress (by simpa using hslash), place_hex haddress (by simpa using hslash)]

end

/-! ## Instructions -/

theorem IsOperands.spaced (h : IsOperands operands) : ∀ c ∈ operands.head?, c = ' ' := by
  cases h with
  | bare hcode => exact hcode.spaced
  | @located code comment hcode hcomment =>
    cases code with
    | nil => simp
    | cons d code => exact hcode.spaced

theorem IsOperands.no_bracket (h : IsOperands operands) : '<' ∉ operands := by
  cases h with
  | bare hcode => exact hcode.no_bracket
  | located hcode hcomment => simpa [addressMark] using ⟨hcode.no_bracket, hcomment⟩

/-- **Padding in front of the address comment changes no operand.** -/
theorem IsOperands.operand?_padded (h : IsOperands operands) (width : Nat) :
    operand? (padded width operands) = operand? operands := by
  cases h with
  | bare hcode => rw [padded, Text.splitAround?_eq_none_iff.mpr hcode.no_mark]
  | @located code comment hcode hcomment =>
    have hcut : Text.splitAround? addressMark (code ++ ' ' :: (addressMark ++ comment))
        = some (code ++ [' '], comment) := by
      rw [Text.splitAround?_append_of_not_infix hcode.no_mark (by decide), addressMark]
      have hhere : Text.splitAround? ['/', '/'] ([] ++ '/' :: (['/'] ++ comment)) =
          some ([], comment) :=
        Text.splitAround?_append_of_not_mem List.not_mem_nil
      rw [List.nil_append] at hhere
      exact congrArg _ hhere
    have hpad : padded width (code ++ ' ' :: (addressMark ++ comment))
        = code ++ ' ' :: List.replicate width ' ' ++ addressMark ++ comment := by
      rw [padded, hcut]
      simp
    have hline : code ++ ' ' :: (addressMark ++ comment) =
        code ++ [' '] ++ addressMark ++ comment := by
      simp
    have hspaces : ∀ c ∈ List.replicate width ' ', Text.isBlank c := fun c hc => by
      rw [List.eq_of_mem_replicate hc]
      decide
    rw [hpad, operand?_append_mark (by decide) hspaces, hline,
      operand?_append_mark (by decide) (by simp)]

/-- What is left of a mnemonic without its suffix is a mnemonic without suffix. -/
theorem IsMnemonic.stem {stem : Text} (hm : IsMnemonic mnemonic) (h : stem? mnemonic = some stem) :
    IsMnemonic stem ∧ stem? stem = none := by
  obtain ⟨suffix, hsuffix, rfl⟩ := stem?_eq_some h
  have hnone : stem? stem = none := stem?_eq_none_iff.mpr fun s hs ⟨p, hp⟩ =>
    hm.not_stacked s hs suffix hsuffix ⟨p, by rw [← List.append_assoc, hp]⟩
  have hends : ∀ s ∈ encodingSuffixes, ¬ s <:+ stem := stem?_eq_none_iff.mp hnone
  refine ⟨⟨fun hnil => hm.not_suffix ?_, fun c hc => hm.no_blank c (List.mem_append_left _ hc),
    fun c hc => hm.no_sign c (List.mem_append_left _ hc), fun hs => hends stem hs ⟨[], rfl⟩,
    fun s _ s' hs' hin => hends s' hs' ((List.suffix_append _ _).trans hin)⟩, hnone⟩
  rwa [hnil]

/-- An instruction line is no label and no comment. -/
theorem IsMnemonic.line_forms (hm : IsMnemonic mnemonic) (hi : ∀ c ∈ indent, c = ' ' ∨ c = '\t')
    (hspace : ∀ c ∈ operands.head?, c = ' ') (hbracket : '<' ∉ operands) :
    label? (indent ++ mnemonic ++ operands) = none ∧
      plainLabel? (indent ++ mnemonic ++ operands) = none ∧
      isComment (indent ++ mnemonic ++ operands) = false := by
  have hsign : ∀ c ∈ [';', ':', '/', '<', '>'], c ∉ indent ++ mnemonic := by
    intro c hc hmem
    rcases List.mem_append.mp hmem with h | h
    · rcases hi c h with rfl | rfl <;> exact absurd hc (by decide)
    · exact hm.no_sign c h hc
  refine ⟨?_, plainLabel?_eq_none_of_no_opening fun hin => ?_, ?_⟩
  · cases operands with
    | nil =>
      rw [Option.eq_none_iff_forall_ne_some]
      intro name hname
      refine hsign ':' (by decide) ?_
      rw [← List.append_nil (indent ++ mnemonic), (label?_eq_some_iff.mp hname).1]
      simp
    | cons d t =>
      obtain rfl := hspace d rfl
      exact label?_eq_none_of_blank (c := ' ') (by simp) (by decide)
  · rcases List.mem_append.mp (hin.subset (by decide : '<' ∈ [' ', '<'])) with h | h
    · exact hsign '<' (by decide) h
    · exact hbracket h
  · obtain ⟨d, m, hd⟩ := List.exists_cons_of_ne_nil (l := indent ++ mnemonic) (by simp [hm.ne_nil])
    have hne : d ≠ ';' := fun h => hsign ';' (by decide) (by rw [hd, h]; exact List.mem_cons_self)
    rw [isComment, hd]
    simpa using hne

theorem isBlank_of_space_or_tab (hi : ∀ c ∈ indent, c = ' ' ∨ c = '\t') :
    ∀ c ∈ indent, Text.isBlank c := by
  intro c hc
  rcases hi c hc with rfl | rfl <;> decide

theorem IsMnemonic.no_space (hm : IsMnemonic mnemonic) : ' ' ∉ mnemonic := fun hc =>
  hm.no_blank _ hc (by decide)

theorem IsMnemonic.no_mark (hm : IsMnemonic mnemonic) : ¬ addressMark <:+: mnemonic := fun hin =>
  hm.no_sign '/' (hin.subset (by decide)) (by decide)

theorem IsMnemonic.withoutSuffix?_eq (hm : IsMnemonic mnemonic) (hi : ∀ c ∈ indent, Text.isBlank c)
    (t : Text) : withoutSuffix? (indent ++ mnemonic ++ ' ' :: t) = (stem? mnemonic).map fun stem =>
      indent ++ stem ++ ' ' :: padded (mnemonic.length - stem.length) t := by
  obtain ⟨d, m, rfl⟩ := List.exists_cons_of_ne_nil hm.ne_nil
  exact withoutSuffix?_append hi (hm.no_blank d List.mem_cons_self) hm.no_space

/-- **An instruction with a suffix becomes settled** by losing it. -/
theorem settled_suffixed {stem : Text} (hi : ∀ c ∈ indent, c = ' ' ∨ c = '\t')
    (hm : IsMnemonic mnemonic) (ho : IsOperands (' ' :: t)) (hstem : stem? mnemonic = some stem) :
    Settled (indent ++ mnemonic ++ ' ' :: t)
      (indent ++ stem ++ ' ' :: padded (mnemonic.length - stem.length) t) := by
  have hblank := isBlank_of_space_or_tab hi
  obtain ⟨hm', hnone⟩ := hm.stem hstem
  obtain ⟨suffix, hsuffix, hmnemonic⟩ := stem?_eq_some hstem
  have hbracket : '<' ∉ ' ' :: padded (mnemonic.length - stem.length) t := fun h => by
    refine ho.no_bracket ?_
    rcases List.mem_cons.mp h with h | h
    · exact absurd h (by decide)
    · exact List.mem_cons_of_mem _ ((mem_padded h).resolve_right (by decide))
  obtain ⟨hl, hp, hc⟩ := hm.line_forms hi ho.spaced ho.no_bracket
  obtain ⟨hl', hp', hc'⟩ := hm'.line_forms hi (by simp) hbracket
  have hs := hm.withoutSuffix?_eq hblank t
  have hs' := hm'.withoutSuffix?_eq hblank (padded (mnemonic.length - stem.length) t)
  rw [hstem] at hs
  rw [hnone] at hs'
  refine ⟨fun named => ?_, fun named => edit_eq_keep hl' hp' (.inr hs'), ?_,
    place_congr (hc'.trans hc.symm) (location_congr ?_)⟩
  · rw [edit_of_withoutSuffix hl hp hc hs]
    rfl
  · rw [branchTarget?_append hblank hm'.ne_nil hm'.no_blank (by decide),
      branchTarget?_append hblank hm.ne_nil hm.no_blank (by decide), ← padded_cons _ (by decide),
      ho.operand?_padded, hmnemonic, isJump_append_suffix hsuffix]
  · rw [addressComment?_code hblank hm'.no_mark, addressComment?_code hblank hm.no_mark,
      addressComment?_padded]

/-- Every instruction becomes settled. -/
theorem settled_instruction (hi : ∀ c ∈ indent, c = ' ' ∨ c = '\t') (hm : IsMnemonic mnemonic)
    (ho : IsOperands operands) : ∃ line', Settled (indent ++ mnemonic ++ operands) line' := by
  have hblank := isBlank_of_space_or_tab hi
  obtain ⟨hl, hp, -⟩ := hm.line_forms hi ho.spaced ho.no_bracket
  cases operands with
  | nil =>
    refine ⟨_, .refl fun named => edit_eq_keep hl hp (.inr ?_)⟩
    rw [List.append_nil]
    exact withoutSuffix?_eq_none_of_no_space hblank hm.no_space
  | cons d t =>
    obtain rfl := ho.spaced d rfl
    cases hstem : stem? mnemonic with
    | none =>
      refine ⟨_, .refl fun named => edit_eq_keep hl hp (.inr ?_)⟩
      rw [hm.withoutSuffix?_eq hblank, hstem]
      rfl
    | some stem => exact ⟨_, settled_suffixed hi hm ho hstem⟩

/-! ## Regular lines -/

/-- **A regular line is a label or becomes settled.** -/
theorem Regular.label_or_settled (h : Regular line) :
    (∃ name, label? line = some name ∧ branchTarget? line = none ∧ place line = .absent) ∨
      ∃ line', Settled line line' := by
  cases h with
  | blank h => exact .inr ⟨_, settled_blank h⟩
  | comment h => exact .inr ⟨_, settled_comment h⟩
  | label h hmark => exact .inl ⟨_, h, target_and_place_of_label h hmark⟩
  | inlineLabel hne haddress _ hplain => exact .inr ⟨_, settled_inlineLabel hne haddress hplain⟩
  | instruction hi hm ho => exact .inr (settled_instruction hi hm ho)

end KernelIsa.Reduction
