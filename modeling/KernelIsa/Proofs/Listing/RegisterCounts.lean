import KernelIsa.Proofs.Listing.LabelRetention
import KernelIsa.Proofs.Listing.RegisterLimit

/-!
# Proofs/Listing/RegisterCounts — what the parts of a body add to the usage

Usages are joined part by part: registers by the greater count, instructions by the sum
(`Usage.join`).  Reading a line joins what the line uses to the usage so far, and noting an operand
joins what the operand uses; one lemma on folds (`foldlM_join`) passes from operands to lines and
from lines to a body (`usage_eq`).  So the usage of a body is that of its parts, in any order, and a
count is that of its highest operand (`exists_of_used`).

Which operands a line has is told without the tokens (`mem_tokens?_iff`), and which of them name a
register by their spelling (`operand?_of_spells`).
-/

namespace KernelIsa.Registers

variable {header body front rest line token digits : Text} {kind : RegisterClass} {n : Nat}

/-! ## Usages joined -/

namespace Usage

/-- What two parts use together. -/
def join (u v : Usage) : Usage :=
  ⟨max u.scalars v.scalars, max u.vectors v.vectors, u.instructions + v.instructions⟩

/-- The registers used of a class. -/
def used (u : Usage) : RegisterClass → Nat
  | .scalar => u.scalars
  | .vector => u.vectors

@[simp] theorem used_join (u v : Usage) (kind : RegisterClass) :
    (u.join v).used kind = max (u.used kind) (v.used kind) := by
  cases kind <;> rfl

@[simp] theorem join_none (u : Usage) : u.join none = u := by
  simp [join, none]

@[simp] theorem none_join (u : Usage) : none.join u = u := by
  simp [join, none]

theorem join_assoc (u v w : Usage) : (u.join v).join w = u.join (v.join w) := by
  simp [join, Nat.max_assoc, Nat.add_assoc]

theorem join_left_comm (u v w : Usage) : u.join (v.join w) = v.join (u.join w) := by
  simp [join, Nat.max_left_comm, Nat.add_left_comm]

/-- What some parts use together. -/
def joinAll (us : List Usage) : Usage := us.foldr join none

theorem joinAll_append (us vs : List Usage) : joinAll (us ++ vs) = (joinAll us).join (joinAll vs) := by
  induction us with
  | nil => exact (none_join _).symm
  | cons u us ih => exact (congrArg (join u) ih).trans (join_assoc ..).symm

theorem joinAll_perm {us vs : List Usage} (h : us.Perm vs) : joinAll us = joinAll vs :=
  h.foldr_eq' (fun u _ v _ w => join_left_comm v u w) none

theorem used_le_joinAll {u : Usage} {us : List Usage} (h : u ∈ us) (kind : RegisterClass) :
    u.used kind ≤ (joinAll us).used kind := by
  induction us with
  | nil => cases h
  | cons v us ih =>
    rw [joinAll, List.foldr_cons, used_join]
    rcases List.mem_cons.mp h with rfl | h
    · exact Nat.le_max_left ..
    · exact Nat.le_trans (ih h) (Nat.le_max_right ..)

/-- **A count is that of one of the parts.** -/
theorem exists_of_used_joinAll {us : List Usage} (h : (joinAll us).used kind = n + 1) :
    ∃ u ∈ us, u.used kind = n + 1 := by
  induction us with
  | nil => cases kind <;> cases h
  | cons v us ih =>
    rw [joinAll, List.foldr_cons, used_join] at h
    rcases Nat.le_total (v.used kind) ((joinAll us).used kind) with hle | hle
    · obtain ⟨u, hu, hn⟩ := ih ((Nat.max_eq_right hle).symm.trans h)
      exact ⟨u, List.mem_cons_of_mem _ hu, hn⟩
    · exact ⟨v, List.mem_cons_self, (Nat.max_eq_left hle).symm.trans h⟩

/-- A fold of which every step joins a part joins all parts. -/
theorem foldlM_join {α : Type} {f : Usage → α → Except Overflow Usage} {part : α → Usage}
    {items : List α} (h : ∀ a ∈ items, ∀ u, f u a = .ok (u.join (part a))) (u : Usage) :
    items.foldlM f u = .ok (u.join (joinAll (items.map part))) := by
  induction items generalizing u with
  | nil => exact congrArg Except.ok (join_none u).symm
  | cons a items ih =>
    obtain ⟨ha, hitems⟩ := List.forall_mem_cons.mp h
    rw [List.foldlM_cons, ha]
    exact (ih hitems _).trans (congrArg Except.ok (join_assoc ..))

/-! ## What operands and lines use -/

/-- What an operand uses. -/
def ofOperand (operand : Operand) : Usage :=
  match operand.kind with
  | .scalar => ⟨operand.index + 1, 0, 0⟩
  | .vector => ⟨0, operand.index + 1, 0⟩

theorem used_ofOperand (operand : Operand) (kind : RegisterClass) :
    (ofOperand operand).used kind = if operand.kind = kind then operand.index + 1 else 0 := by
  obtain ⟨kind', index⟩ := operand
  cases kind <;> cases kind' <;> rfl

/-- What a line uses. -/
def ofLine (line : Text) : Usage := (tokens? line).elim none fun tokens =>
  (mk 0 0 1).join (joinAll ((tokens.filterMap operand?).map ofOperand))

theorem note_eq_join {operand : Operand} (h : operand.index + 1 < Word.limit) (u : Usage) :
    u.note operand = .ok (u.join (ofOperand operand)) := by
  obtain ⟨kind, index⟩ := operand
  rw [note, Word.add, if_pos h]
  cases kind <;> simp [join, ofOperand]

theorem noteLine_eq_join (h : ∀ tokens ∈ tokens? line, ∀ operand ∈ tokens.filterMap operand?,
    operand.index + 1 < Word.limit) (u : Usage) : u.noteLine line = .ok (u.join (ofLine line)) := by
  rw [noteLine, ofLine]
  cases htokens : tokens? line with
  | none => exact congrArg Except.ok (join_none u).symm
  | some tokens =>
    have hcount : { u with instructions := u.instructions + 1 } = u.join ⟨0, 0, 1⟩ := by
      simp [join]
    dsimp only
    rw [hcount, foldlM_join fun operand hoperand => note_eq_join (h tokens htokens operand hoperand),
      join_assoc]
    rfl

end Usage

/-! ## The usage of a fragment -/

/-- The line names the register with the greatest index. -/
def LineNamesLast (line : Text) : Prop := ∃ tokens ∈ tokens? line,
  ∃ operand ∈ tokens.filterMap operand?, operand.index + 1 = Word.limit

/-- **The usage of a fragment is what its lines use together.** -/
theorem usage_eq {fragment : Text} (h : ¬ NamesLast fragment) : usage fragment
    = .ok (Usage.joinAll ((Text.lines (Fragment.body fragment)).map Usage.ofLine)) := by
  have hnote : ∀ line ∈ Text.lines (Fragment.body fragment), ∀ u : Usage,
      u.noteLine line = .ok (u.join (Usage.ofLine line)) := by
    refine fun line hline => Usage.noteLine_eq_join fun tokens htokens operand hoperand => ?_
    obtain ⟨token, -, htoken⟩ := List.mem_filterMap.mp hoperand
    exact Nat.lt_of_le_of_ne (operand?_lt htoken) fun hlast =>
      h ⟨line, hline, tokens, htokens, operand, hoperand, hlast⟩
  rw [usage, Usage.foldlM_join hnote, Usage.none_join]

/-- A header is two lines with their ends. -/
def IsHeader (header : Text) : Prop := ∃ first second, '\n' ∉ first ∧ '\n' ∉ second ∧
  header = Text.ofLines [first, second]

theorem IsHeader.body_append (h : IsHeader header) (body : Text) :
    Fragment.body (header ++ body) = body := by
  obtain ⟨first, second, hfirst, hsecond, rfl⟩ := h
  exact Fragment.body_ofLines_append hfirst hsecond body

theorem IsHeader.usage_append (h : IsHeader header) (hlast : ¬ NamesLast (header ++ body)) :
    usage (header ++ body)
      = .ok (Usage.joinAll ((Text.lines body).map Usage.ofLine)) := by
  rw [usage_eq hlast, h.body_append]

theorem IsHeader.namesLast_append_iff (h : IsHeader header) :
    NamesLast (header ++ body) ↔ ∃ line ∈ Text.lines body, LineNamesLast line := by
  rw [NamesLast, h.body_append]
  rfl

/-- **The usage of two parts of a body is that of the one joined with that of the other.** -/
theorem IsHeader.usage_parts (h : IsHeader header) (hfront : ∀ c ∈ front.getLast?, c = '\n')
    (hlast : ¬ NamesLast (header ++ front ++ rest)) : ∃ u v,
      usage (header ++ front) = .ok u ∧ usage (header ++ rest) = .ok v ∧
        usage (header ++ front ++ rest) = .ok (u.join v) := by
  rw [List.append_assoc] at hlast ⊢
  have hlines := Text.lines_append_ended hfront rest
  have hparts := hlast
  rw [h.namesLast_append_iff, hlines] at hparts
  simp only [List.mem_append, or_and_right, exists_or, not_or] at hparts
  refine ⟨_, _, h.usage_append (mt h.namesLast_append_iff.mp hparts.1),
    h.usage_append (mt h.namesLast_append_iff.mp hparts.2), ?_⟩
  rw [h.usage_append hlast, hlines, List.map_append, Usage.joinAll_append]

/-- **The order of the lines of a body does not matter**, also where the usage overflows. -/
theorem IsHeader.usage_perm {body' : Text} (h : IsHeader header)
    (hperm : (Text.lines body).Perm (Text.lines body')) :
    usage (header ++ body) = usage (header ++ body') := by
  have hiff : NamesLast (header ++ body) ↔ NamesLast (header ++ body') := by
    simp only [h.namesLast_append_iff, hperm.mem_iff]
  by_cases hlast : NamesLast (header ++ body)
  · rw [usage_eq_error_iff.mpr ⟨rfl, hlast⟩, usage_eq_error_iff.mpr ⟨rfl, hiff.mp hlast⟩]
  · rw [h.usage_append hlast, h.usage_append (mt hiff.mpr hlast),
      Usage.joinAll_perm (hperm.map Usage.ofLine)]

/-! ## The operands of a line -/

/-- A comma or a blank. -/
def isSeparator (c : Char) : Bool := Text.isBlank c || c = ','

/-- The token stands between separators behind the mnemonic of an instruction, in front of the
address comment. -/
def IsOperand (token line : Text) : Prop :=
  Line.isComment (Text.trim line) = false ∧ Line.label? (Text.trim line) = none ∧
    (∀ c ∈ token, ¬ isSeparator c) ∧
    ∃ mnemonic s lead behind,
      Line.codeOf (Text.trim line) = mnemonic ++ s :: (lead ++ token ++ behind) ∧
        mnemonic ≠ [] ∧ (∀ c ∈ mnemonic, ¬ isSeparator c) ∧ isSeparator s ∧
        (∀ c ∈ lead.getLast?, isSeparator c) ∧ ∀ c ∈ behind.head?, isSeparator c

theorem tokens?_eq_some_iff {tokens : List Text} : tokens? line = some tokens ↔
    Line.isComment (Text.trim line) = false ∧ Line.label? (Text.trim line) = none ∧
      ∃ mnemonic, mnemonic ≠ [] ∧
        pieces isSeparator (Line.codeOf (Text.trim line)) = mnemonic :: tokens := by
  have hcode : pieces (fun c => Text.isBlank c || c = ',')
      (((Text.splitAround? Line.addressMark (Text.trim line)).map Prod.fst).getD (Text.trim line))
        = pieces isSeparator (Line.codeOf (Text.trim line)) := rfl
  simp only [tokens?, hcode]
  constructor
  · intro h
    split at h
    · cases h
    · next hread =>
      simp only [Bool.or_eq_true, not_or, Bool.not_eq_true, Option.isSome_eq_false_iff,
        Option.isNone_iff_eq_none] at hread
      split at h
      · cases h
      · next mnemonic operands hpieces =>
        split at h
        · cases h
        · next hne =>
          obtain rfl := Option.some.inj h
          exact ⟨hread.1.2, hread.2, mnemonic, mt List.isEmpty_iff.mpr hne, hpieces⟩
  · rintro ⟨hcomment, hlabel, mnemonic, hne, hpieces⟩
    have hline : (Text.trim line).isEmpty = false := by
      cases hline : Text.trim line with
      | nil =>
        rw [hline] at hpieces
        exact absurd (List.cons.inj hpieces).1.symm hne
      | cons c t => rfl
    simp [hcomment, hlabel, hline, hpieces, hne]

/-- **The operands are the tokens of a line.** -/
theorem mem_tokens?_iff : (∃ tokens ∈ tokens? line, token ∈ tokens) ↔ IsOperand token line := by
  constructor
  · rintro ⟨tokens, htokens, htoken⟩
    obtain ⟨hcomment, hlabel, mnemonic, hne, hpieces⟩ := tokens?_eq_some_iff.mp htokens
    obtain ⟨hmnemonic, ⟨-, rfl⟩ | ⟨s, u, hcode, hs, rfl⟩⟩ := Text.pieces_eq_cons_iff.mp hpieces
    · cases htoken
    · obtain ⟨hpure, lead, behind, rfl, hlead, hbehind⟩ := Text.mem_pieces_iff.mp htoken
      exact ⟨hcomment, hlabel, hpure, mnemonic, s, lead, behind, hcode, hne, hmnemonic, hs, hlead,
        hbehind⟩
  · rintro ⟨hcomment, hlabel, htoken, mnemonic, s, lead, behind, hcode, hne, hmnemonic, hs, hlead,
      hbehind⟩
    refine ⟨pieces isSeparator (lead ++ token ++ behind), ?_,
      Text.mem_pieces_iff.mpr ⟨htoken, lead, behind, rfl, hlead, hbehind⟩⟩
    refine tokens?_eq_some_iff.mpr ⟨hcomment, hlabel, mnemonic, hne, ?_⟩
    exact Text.pieces_eq_cons_iff.mpr ⟨hmnemonic, .inr ⟨s, _, hcode, hs, rfl⟩⟩

/-! ## The spelling of a register -/

/-- Decimal digits of a number. -/
def IsDecimal (n : Nat) (digits : Text) : Prop :=
  digits ≠ [] ∧ (∀ c ∈ digits, c.isDigit) ∧ Nat.ofDigitChars 10 digits 0 = n

/-- An index, or a range of indices with the highest one behind the colon. -/
inductive IsIndex (n : Nat) : Text → Prop
  | single {digits : Text} (h : IsDecimal n digits) : IsIndex n digits
  | range {m : Nat} {first last : Text} (hfirst : IsDecimal m first) (hlast : IsDecimal n last) :
      IsIndex n ('[' :: (first ++ ':' :: last ++ [']']))

/-- The letter of the class and an index, between any signs. -/
def Spells (kind : RegisterClass) (n : Nat) (token : Text) : Prop :=
  ∃ before letter index after, token = before ++ letter :: index ++ after ∧
    (∀ c ∈ before, isSign c) ∧ (∀ c ∈ after, isSign c) ∧
    RegisterClass.ofLetter? letter = some kind ∧ IsIndex n index

theorem isSign_iff {c : Char} : isSign c ↔ c = '-' ∨ c = '|' ∨ c = '!' := by
  simp [isSign, or_assoc]

namespace IsDecimal

theorem read? (h : IsDecimal n digits) (hn : n < Word.limit) : Word.read? 10 digits = some n := by
  obtain ⟨hne, hdigits, rfl⟩ := h
  exact Word.read?_of_isDigit hne hdigits hn

theorem notMem (h : IsDecimal n digits) {c : Char} (hc : c.isDigit = false) : c ∉ digits := by
  intro hmem
  rw [h.2.1 c hmem] at hc
  cases hc

theorem trim_eq (h : IsDecimal n digits) : Text.trim digits = digits := by
  have hblank : ∀ c ∈ digits, ¬ Text.isBlank c := fun c hc =>
    Word.not_isBlank_of_digit? (Option.isSome_of_eq_some (Word.digit?_of_isDigit (h.2.1 c hc)))
  exact Text.trim_eq_self (fun c hc => hblank c (List.mem_of_head? hc))
    fun c hc => hblank c (List.mem_of_getLast? hc)

theorem bracketed?_eq_none (h : IsDecimal n digits) : bracketed? digits = none := by
  obtain ⟨c, t, rfl⟩ := List.exists_cons_of_ne_nil h.1
  have hbracket : '[' ∉ c :: t := h.notMem (by decide)
  have hc : ¬ '[' = c := fun hc => hbracket (hc ▸ List.mem_cons_self)
  rw [bracketed?, Text.dropLead?, if_neg hc]
  rfl

end IsDecimal

theorem bracketed?_range (range : Text) : bracketed? ('[' :: (range ++ [']'])) = some range := by
  have hlead : Text.dropLead? ['['] ('[' :: (range ++ [']'])) = some (range ++ [']']) :=
    Text.dropLead?_append ['['] _
  rw [bracketed?, hlead, Option.bind_some, Text.dropEnding?_eq_some_iff]

/-- **An index is read as its number**, a range as the number behind the colon. -/
theorem IsIndex.index? (h : IsIndex n digits) (hn : n < Word.limit) : index? digits = some n := by
  cases h with
  | single h =>
    have hall : digits.any (fun c => !c.isDigit) = false := by simpa using h.2.1
    rw [Registers.index?, h.bracketed?_eq_none]
    simp [h.1, hall, h.read? hn]
  | @range m first last hfirst hlast =>
    have hcut : Text.splitAround? [':'] (first ++ ':' :: last) = some (first, last) :=
      Text.splitAround?_append_of_not_mem (hfirst.notMem (by decide))
    rw [Registers.index?, bracketed?_range]
    dsimp only
    rw [hcut, Option.bind_some, hlast.trim_eq, hlast.read? hn]

/-- The last character of an index is no sign. -/
theorem IsIndex.exists_concat (h : IsIndex n digits) :
    ∃ front c, digits = front ++ [c] ∧ ¬ isSign c := by
  cases h with
  | single h =>
    obtain ⟨hne, hdigits, -⟩ := h
    rcases List.eq_nil_or_concat digits with rfl | ⟨front, c, rfl⟩
    · exact absurd rfl hne
    · refine ⟨front, c, List.concat_eq_append .., fun hsign => ?_⟩
      have hc : c.isDigit := hdigits c (by simp)
      obtain rfl | rfl | rfl := isSign_iff.mp hsign <;> exact absurd hc (by decide)
  | range => exact ⟨_ :: _, ']', rfl, by decide⟩

/-- **What is spelled as a register is read as one.** -/
theorem operand?_of_spells (h : Spells kind n token) (hn : n < Word.limit) :
    operand? token = some ⟨kind, n⟩ := by
  obtain ⟨before, letter, index, after, rfl, hbefore, hafter, hletter, hindex⟩ := h
  have hsign : ¬ isSign letter := fun hsign => by
    obtain rfl | rfl | rfl := isSign_iff.mp hsign <;> cases hletter
  obtain ⟨front, c, hfront, hc⟩ := hindex.exists_concat
  have hstart : (before ++ letter :: index ++ after).dropWhile isSign = letter :: index ++ after := by
    rw [List.append_assoc, List.dropWhile_append_of_pos hbefore, List.cons_append,
      List.dropWhile_cons_of_neg hsign]
  have hend : Text.dropEndWhile isSign (letter :: index ++ after) = letter :: index := by
    rw [hfront, ← List.cons_append, List.append_assoc, List.singleton_append,
      Text.dropEndWhile_append_cons hc, Text.dropEndWhile_eq_nil hafter]
  rw [operand?, hstart, hend]
  dsimp only
  rw [hletter, hindex.index? hn]
  rfl

/-! ## The highest operand -/

theorem Usage.le_used {operand : Operand} (hoperand : IsOperand token line)
    (hread : operand? token = some operand) :
    operand.index + 1 ≤ (Usage.ofLine line).used operand.kind := by
  obtain ⟨tokens, htokens, htoken⟩ := mem_tokens?_iff.mpr hoperand
  have hmem : ofOperand operand ∈ (tokens.filterMap operand?).map ofOperand :=
    List.mem_map_of_mem (List.mem_filterMap.mpr ⟨token, htoken, hread⟩)
  have hle := used_le_joinAll hmem operand.kind
  rw [used_ofOperand, if_pos rfl] at hle
  rw [ofLine, Option.mem_def.mp htokens, Option.elim_some, used_join]
  exact Nat.le_trans hle (Nat.le_max_right ..)

theorem Usage.exists_of_used (h : (Usage.ofLine line).used kind = n + 1) :
    ∃ token, IsOperand token line ∧ operand? token = some ⟨kind, n⟩ := by
  rw [ofLine] at h
  cases htokens : tokens? line with
  | none =>
    rw [htokens] at h
    cases kind <;> cases h
  | some tokens =>
    have hzero : (mk 0 0 1).used kind = 0 := by cases kind <;> rfl
    rw [htokens, Option.elim_some, used_join, hzero, Nat.zero_max] at h
    obtain ⟨u, hu, hn⟩ := exists_of_used_joinAll h
    obtain ⟨operand, hoperand, rfl⟩ := List.mem_map.mp hu
    obtain ⟨token, htoken, hread⟩ := List.mem_filterMap.mp hoperand
    rw [used_ofOperand] at hn
    split at hn
    · next hkind =>
      obtain ⟨_, _⟩ := operand
      cases hkind
      cases hn
      exact ⟨token, mem_tokens?_iff.mp ⟨tokens, htokens, htoken⟩, hread⟩
    · cases hn

/-- **The usage of a body is that of its parts in any order, and a count is that of its highest
operand.** -/
theorem usage_compositional (h : IsHeader header) :
    (∀ front rest : Text, (∀ c ∈ front.getLast?, c = '\n') →
      ¬ NamesLast (header ++ front ++ rest) → ∃ u v, usage (header ++ front) = .ok u ∧
        usage (header ++ rest) = .ok v ∧ usage (header ++ front ++ rest) = .ok (u.join v)) ∧
    (∀ body body' : Text, (Text.lines body).Perm (Text.lines body') →
      usage (header ++ body) = usage (header ++ body')) ∧
    ∀ body : Text, ¬ NamesLast (header ++ body) → ∃ u, usage (header ++ body) = .ok u ∧
      ∀ kind n,
        ((∃ line ∈ Text.lines body, ∃ token, IsOperand token line ∧ Spells kind n token) →
          n + 1 < Word.limit → n + 1 ≤ u.used kind) ∧
        (u.used kind = n + 1 →
          ∃ line ∈ Text.lines body, ∃ token, IsOperand token line ∧
            operand? token = some ⟨kind, n⟩) := by
  refine ⟨fun _ _ => h.usage_parts, fun _ _ => h.usage_perm, fun body hlast =>
    ⟨_, h.usage_append hlast, fun kind n => ⟨?_, fun hused => ?_⟩⟩⟩
  · rintro ⟨line, hline, token, hoperand, hspells⟩ hn
    refine Nat.le_trans ?_ (Usage.used_le_joinAll (List.mem_map_of_mem hline) kind)
    exact Usage.le_used hoperand (operand?_of_spells hspells (Nat.lt_of_succ_lt hn))
  · obtain ⟨u, hu, hn⟩ := Usage.exists_of_used_joinAll hused
    obtain ⟨line, hline, rfl⟩ := List.mem_map.mp hu
    obtain ⟨token, htoken⟩ := Usage.exists_of_used hn
    exact ⟨line, hline, token, htoken⟩

/-- The two lines of a header. -/
def sampleHeader : Text := "; k\n; k\n".toList

/-- A sum of two vector registers. -/
def sampleSum : Text := "\tv_add_f32 v3, -|v2|\n".toList

/-- A load of two scalar registers, with no blank between its operands. -/
def sampleLoad : Text := "\ts_load_dwordx2 s[0:1],!s[4:05],0x0 // 0: C0\n".toList

/-- The sum and the load, in either order, use four vector registers and six scalar ones. -/
theorem usage_compositional_sampleOperands :
    (∃ u v, usage (sampleHeader ++ sampleSum) = .ok u ∧ usage (sampleHeader ++ sampleLoad) = .ok v ∧
      usage (sampleHeader ++ sampleSum ++ sampleLoad) = .ok (u.join v)) ∧
    usage (sampleHeader ++ (sampleSum ++ sampleLoad))
      = usage (sampleHeader ++ (sampleLoad ++ sampleSum)) ∧
    ∃ u, usage (sampleHeader ++ (sampleSum ++ sampleLoad)) = .ok u ∧ 5 + 1 ≤ u.used .scalar ∧
      (u.used .vector = 3 + 1 → ∃ line ∈ Text.lines (sampleSum ++ sampleLoad), ∃ token,
        IsOperand token line ∧ operand? token = some ⟨.vector, 3⟩) := by
  have hheader : IsHeader sampleHeader :=
    ⟨"; k".toList, "; k".toList, by decide, by decide, by decide⟩
  have hused : usage (sampleHeader ++ (sampleSum ++ sampleLoad)) = .ok ⟨6, 4, 2⟩ := by
    decide +kernel
  have hlast : ¬ NamesLast (sampleHeader ++ (sampleSum ++ sampleLoad)) := fun h => by
    rw [usage_eq_error_iff.mpr ⟨rfl, h⟩] at hused
    cases hused
  have hloaded : IsOperand "!s[4:05]".toList "\ts_load_dwordx2 s[0:1],!s[4:05],0x0 // 0: C0".toList :=
    mem_tokens?_iff.mp ⟨["s[0:1]".toList, "!s[4:05]".toList, "0x0".toList, []],
      by decide +kernel, by decide⟩
  have hfour : IsDecimal 4 ['4'] := ⟨by decide, List.all_eq_true.mp (by decide), rfl⟩
  have hfive : IsDecimal 5 ['0', '5'] := ⟨by decide, List.all_eq_true.mp (by decide), rfl⟩
  have hspelled : Spells .scalar 5 "!s[4:05]".toList :=
    ⟨['!'], 's', "[4:05]".toList, [], rfl, List.all_eq_true.mp (by decide), nofun, rfl,
      .range hfour hfive⟩
  have hend : ∀ c ∈ sampleSum.getLast?, c = '\n' := fun c hc =>
    Option.some.inj (hc.symm.trans (by decide))
  obtain ⟨hparts, hperm, hbounds⟩ := usage_compositional hheader
  obtain ⟨u, hu, hcount⟩ := hbounds _ hlast
  refine ⟨hparts _ _ hend (by rwa [List.append_assoc]), hperm _ _ (by decide +kernel), u, hu,
    (hcount .scalar 5).1 ⟨_, by decide +kernel, _, hloaded, hspelled⟩ (by decide),
    (hcount .vector 3).2⟩

end KernelIsa.Registers
