import KernelIsa.Listing.Line
import KernelIsa.Proofs.Text.Marks
import KernelIsa.Proofs.Text.Tokens
import Mathlib.Data.Bool.AllAny
import Mathlib.Data.List.TakeWhile

/-!
# Proofs/Listing/LineForms — what the parts of a line decide

Each reading of a line is settled by a part of it: the location by the address comment
(`location_congr`), a label by the colon that ends it (`label?_eq_some_iff`), a jump by its mnemonic
and the token behind it (`branchTarget?_append`), an inline label by the first ` <`, although its
plain form starts with what stands in front of the first space (`plainLabel?_opened`).  Taking off
an encoding suffix changes the mnemonic and pads the operands (`withoutSuffix?_eq_some`); neither
touches the address comment.
-/

namespace KernelIsa.Line

variable {line line' indent mnemonic t p : Text} {c : Char}

/-! ## The address comment -/

theorem not_mem_addressMark_of_blank (hb : Text.isBlank c) : c ∉ addressMark := fun h => by
  obtain rfl : c = '/' := by simpa [addressMark] using h
  exact absurd hb (by decide)

/-- What stands behind the address mark of a line. -/
def addressComment? (line : Text) : Option Text :=
  (Text.splitAround? addressMark line).map Prod.snd

theorem addressComment?_eq_none_iff : addressComment? line = none ↔ ¬ addressMark <:+: line := by
  rw [addressComment?, Option.map_eq_none_iff, Text.splitAround?_eq_none_iff]

/-- The location that an address comment gives. -/
def locate (comment : Text) : Location :=
  match Text.splitAround? [':'] comment with
  | none => .absent
  | some (address, encoding) => match Word.read? 16 (Text.trim address) with
    | none => .unreadable
    | some n => .span n (if 1 + Text.byteLength encoding < wideEncoding then 4 else 8)

theorem location_eq (line : Text) : location line = (addressComment? line).elim .absent locate := by
  rw [location, addressComment?]
  cases Text.splitAround? addressMark line <;> rfl

/-- **The location depends on the address comment alone.** -/
theorem location_congr (h : addressComment? line = addressComment? line') :
    location line = location line' := by
  rw [location_eq, location_eq, h]

theorem locate_eq_absent_iff {comment : Text} : locate comment = .absent ↔ ':' ∉ comment := by
  rw [locate, ← Text.splitAround?_singleton_eq_none_iff]
  split
  · next h => simp [h]
  · next h => split <;> simp [h]

theorem location_eq_absent_iff :
    location line = .absent ↔ ∀ comment, addressComment? line = some comment → ':' ∉ comment := by
  rw [location_eq]
  cases addressComment? line with
  | none => simp
  | some comment => simp [locate_eq_absent_iff]

theorem location_eq_absent_of_not_infix (h : ¬ addressMark <:+: line) :
    location line = .absent := by
  rw [location_eq, addressComment?_eq_none_iff.mpr h]
  rfl

/-- A stretch without the address mark, ended by no slash, does not belong to the comment. -/
theorem addressComment?_append (hp : ¬ addressMark <:+: p) (hc : c ≠ '/') :
    addressComment? (p ++ c :: t) = addressComment? t := by
  have hc' : c ∉ addressMark := by simpa [addressMark] using hc
  rw [addressComment?, addressComment?, Text.splitAround?_append_of_not_infix hp hc',
    Option.map_map]
  rfl

theorem addressComment?_append_mark {after : Text} (h : '/' ∉ p) :
    addressComment? (p ++ addressMark ++ after) = some after := by
  rw [addressComment?, addressMark, List.append_assoc]
  exact congrArg (Option.map Prod.snd) (Text.splitAround?_append_of_not_mem h)

/-! ## Padded operands -/

/-- Operands with spaces put in front of the address comment, if there is one. -/
def padded (width : Nat) (operands : Text) : Text :=
  match Text.splitAround? addressMark operands with
  | none => operands
  | some (before, after) => before ++ List.replicate width ' ' ++ addressMark ++ after

theorem padded_cons (width : Nat) (hc : c ≠ '/') :
    padded width (c :: t) = c :: padded width t := by
  have hc' : c ∉ addressMark := by simpa [addressMark] using hc
  have hcut : Text.splitAround? addressMark ([] ++ c :: t) = _ :=
    Text.splitAround?_append_of_not_infix (by simp [addressMark]) hc'
  rw [List.nil_append] at hcut
  rw [padded, padded, hcut]
  cases Text.splitAround? addressMark t <;> rfl

/-- Padding moves the address mark behind the spaces. -/
theorem splitAround?_padded (width : Nat) (t : Text) :
    Text.splitAround? addressMark (padded width t) = (Text.splitAround? addressMark t).map
      fun parts => (parts.1 ++ List.replicate width ' ', parts.2) := by
  rw [padded]
  cases h : Text.splitAround? addressMark t with
  | none => exact h
  | some parts =>
    obtain ⟨before, after⟩ := parts
    have hbefore := Text.not_infix_of_splitAround? (by simp [addressMark]) h
    dsimp only [Option.map_some]
    cases width with
    | zero => rw [List.replicate_zero, List.append_nil, ← Text.splitAround?_eq_some h, h]
    | succ width =>
      have hspaces : '/' ∉ List.replicate width ' ' := by simp
      have hcut : Text.splitAround? addressMark (List.replicate width ' ' ++ (addressMark ++ after))
          = some (List.replicate width ' ', after) := Text.splitAround?_append_of_not_mem hspaces
      simp only [List.replicate_succ, List.append_assoc, List.cons_append]
      rw [Text.splitAround?_append_of_not_infix hbefore (by decide)]
      exact congrArg (Option.map fun parts => (before ++ ' ' :: parts.1, parts.2)) hcut

/-- **Padding does not touch the address comment.** -/
theorem addressComment?_padded (width : Nat) (t : Text) :
    addressComment? (padded width t) = addressComment? t := by
  rw [addressComment?, addressComment?, splitAround?_padded, Option.map_map]
  rfl

theorem mem_padded {width : Nat} (h : c ∈ padded width t) : c ∈ t ∨ c = ' ' := by
  rw [padded] at h
  split at h
  · exact .inl h
  · next before after hcut =>
    rw [Text.splitAround?_eq_some hcut]
    simp only [List.mem_append, List.mem_replicate] at h ⊢
    tauto

/-! ## Labels -/

/-- **A label line is a name without blanks and colons, and a colon.** -/
theorem label?_eq_some_iff {name : Text} : label? line = some name ↔
    line = name ++ [':'] ∧ name ≠ [] ∧ ∀ c ∈ name, ¬ Text.isBlank c ∧ c ≠ ':' := by
  rw [label?]
  constructor
  · intro h
    split at h
    · next hif =>
      obtain rfl : line.takeWhile (· ≠ ':') = name := by simpa using h
      simp only [Bool.and_eq_true, decide_eq_true_eq, Bool.not_eq_true', List.isEmpty_eq_false_iff,
        List.any_eq_false] at hif
      refine ⟨?_, hif.1.2, fun c hc => ⟨hif.2 c hc, by simpa using List.mem_takeWhile_imp hc⟩⟩
      rw [← hif.1.1, List.takeWhile_append_dropWhile]
    · cases h
  · rintro ⟨rfl, hne, hname⟩
    have hcolon : ∀ c ∈ name, decide (c ≠ ':') = true := fun c hc => decide_eq_true (hname c hc).2
    have htake : (name ++ [':']).takeWhile (· ≠ ':') = name := by
      rw [List.takeWhile_append_of_pos hcolon, List.takeWhile_cons_of_neg (by simp),
        List.append_nil]
    have hdrop : (name ++ [':']).dropWhile (· ≠ ':') = [':'] := by
      rw [List.dropWhile_append_of_pos hcolon, List.dropWhile_cons_of_neg (by simp)]
    have hblank : name.any Text.isBlank = false := by
      simpa [List.any_eq_false] using fun c hc => (hname c hc).1
    simp only [htake, hdrop, hblank]
    simp [hne]

theorem label?_eq_none_of_blank (hc : c ∈ line) (hb : Text.isBlank c) : label? line = none := by
  rw [Option.eq_none_iff_forall_ne_some]
  intro name h
  obtain ⟨rfl, -, hname⟩ := label?_eq_some_iff.mp h
  rcases List.mem_append.mp hc with h | h
  · exact (hname c h).1 hb
  · rw [List.mem_singleton.mp h] at hb
    exact absurd hb (by decide)

theorem plainLabel?_eq_none_of_no_opening (h : ¬ [' ', '<'] <:+: line) :
    plainLabel? line = none := by
  rw [plainLabel?, Text.splitAround?_eq_none_iff.mpr h]

theorem plainLabel?_eq_none_of_no_closing (h : ¬ ['>', ':'] <:+: line) :
    plainLabel? line = none := by
  rw [plainLabel?]
  split
  · rfl
  · next before after hcut =>
    have hafter : ¬ ['>', ':'] <:+: after := fun hin => h (by
      rw [Text.splitAround?_eq_some hcut]
      exact hin.trans (List.suffix_append _ _).isInfix)
    rw [Text.splitAround?_eq_none_iff.mpr hafter]
    simp

/-- **The plain form of a label in angle brackets** has what stands in front of the first space,
and the label. -/
theorem plainLabel?_opened {before label : Text} (hne : before ≠ [])
    (hb : ¬ [' ', '<'] <:+: before) (hl : '>' ∉ label) :
    plainLabel? (before ++ ' ' :: '<' :: (label ++ ['>', ':']))
      = some (before.takeWhile (· ≠ ' ') ++ ' ' :: (label ++ [':'])) := by
  have hline : before ++ ' ' :: '<' :: (label ++ ['>', ':'])
      = before ++ [' ', '<'] ++ (label ++ ['>', ':']) := by simp
  have hopen : Text.splitAround? [' ', '<'] (before ++ ' ' :: '<' :: (label ++ ['>', ':']))
      = some (before, label ++ ['>', ':']) := by
    rw [hline]
    exact Text.splitAround?_append_mark (mt (Text.infix_concat_iff_of_ne (by decide)).mp hb) _
  have hclose : Text.splitAround? ['>', ':'] (label ++ '>' :: ([':'] ++ [])) = _ :=
    Text.splitAround?_append_of_not_mem hl
  have htake : (before ++ ' ' :: '<' :: (label ++ ['>', ':'])).takeWhile (· ≠ ' ')
      = before.takeWhile (· ≠ ' ') := Text.takeWhile_append_cons (by decide) before _
  rw [List.append_nil] at hclose
  rw [plainLabel?, hopen]
  simp only [List.isEmpty_eq_false_iff.mpr hne, hclose, htake, Bool.false_eq_true, if_false,
    Option.map_some, List.append_assoc, List.cons_append]

/-- The plain form of an address and a label in angle brackets. -/
theorem plainLabel?_append {address label : Text} (hne : address ≠ []) (ha : ' ' ∉ address)
    (hl : '>' ∉ label) :
    plainLabel? (address ++ ' ' :: '<' :: (label ++ ['>', ':']))
      = some (address ++ ' ' :: (label ++ [':'])) := by
  have htake : address.takeWhile (· ≠ ' ') = address :=
    List.takeWhile_eq_self_iff.mpr fun c hc => decide_eq_true fun h => ha (h ▸ hc)
  rw [plainLabel?_opened hne (fun hin => ha (hin.subset (by decide))) hl, htake]

/-- **A line with an inline label**, and what its plain form takes of it. -/
theorem plainLabel?_eq_some (h : plainLabel? line = some line') : ∃ before label after,
    line = before ++ [' ', '<'] ++ (label ++ ['>', ':'] ++ after) ∧
      line' = line.takeWhile (· ≠ ' ') ++ ' ' :: label ++ [':'] := by
  rw [plainLabel?] at h
  split at h
  · cases h
  · next before rest hcut =>
    split at h
    · cases h
    · obtain ⟨⟨label, after⟩, hclose, rfl⟩ := Option.map_eq_some_iff.mp h
      refine ⟨before, label, after, ?_, rfl⟩
      rw [Text.splitAround?_eq_some hcut, Text.splitAround?_eq_some hclose]

theorem mem_of_plainLabel? (h : plainLabel? line = some line') (hc : c ∈ line') :
    c ∈ line ∨ c = ' ' ∨ c = ':' := by
  obtain ⟨before, label, after, hline, rfl⟩ := plainLabel?_eq_some h
  have hlabel : c ∈ label → c ∈ line := fun hc => by
    rw [hline]
    simp [hc]
  have htake : c ∈ line.takeWhile (· ≠ ' ') → c ∈ line := fun hc =>
    (List.takeWhile_sublist _).subset hc
  simp only [List.mem_append, List.mem_cons, List.not_mem_nil, or_false] at hc
  rcases hc with (h | rfl | h) | rfl
  · exact .inl (htake h)
  · exact .inr (.inl rfl)
  · exact .inl (hlabel h)
  · exact .inr (.inr rfl)

/-! ## Branches -/

/-- The token at the head of some operands, unless it opens the address comment. -/
def operand? (operands : Text) : Option Text :=
  let operand := Text.trimStart operands
  if operand.isEmpty || Text.startsWith addressMark operand then none
  else some (Text.firstToken operand)

/-- **The target of a line** is the operand behind its mnemonic, if that is one of a jump. -/
theorem branchTarget?_eq (line : Text) : branchTarget? line
    = if isJump (Text.firstToken (Text.trimStart line)) then
        operand? (Text.afterFirstToken (Text.trimStart line)) else none := by
  rw [branchTarget?, operand?]
  cases Text.afterFirstToken (Text.trimStart line) with
  | nil => cases isJump (Text.firstToken (Text.trimStart line)) <;> rfl
  | cons b rest => cases isJump (Text.firstToken (Text.trimStart line)) <;> simp

theorem branchTarget?_append {b : Char} (hi : ∀ c ∈ indent, Text.isBlank c) (hne : mnemonic ≠ [])
    (hm : ∀ c ∈ mnemonic, ¬ Text.isBlank c) (hb : Text.isBlank b) :
    branchTarget? (indent ++ mnemonic ++ b :: t)
      = if isJump mnemonic then operand? (b :: t) else none := by
  have hstart : Text.trimStart (indent ++ mnemonic ++ b :: t) = mnemonic ++ b :: t := by
    obtain ⟨d, m, rfl⟩ := List.exists_cons_of_ne_nil hne
    rw [List.append_assoc, Text.trimStart_append hi, List.cons_append,
      Text.trimStart_cons_of_not (hm d List.mem_cons_self)]
  have htoken : Text.firstToken (mnemonic ++ b :: t) = mnemonic := by
    rw [Text.firstToken_append_blank hb, Text.firstToken_eq_self hm]
  rw [branchTarget?_eq, hstart, htoken, Text.afterFirstToken_append_blank hm hb]

/-- A line of one token names no target. -/
theorem branchTarget?_eq_none_of_token (hi : ∀ c ∈ indent, Text.isBlank c)
    (hm : ∀ c ∈ mnemonic, ¬ Text.isBlank c) : branchTarget? (indent ++ mnemonic) = none := by
  have hsub : ∀ c ∈ Text.trimStart (indent ++ mnemonic), ¬ Text.isBlank c := by
    rw [Text.trimStart_append hi]
    exact fun c hc => hm c ((List.dropWhile_suffix _).subset hc)
  rw [branchTarget?_eq, Text.afterFirstToken_eq_nil hsub]
  exact ite_self none

theorem operand?_eq_none (h : ∀ c ∈ p, Text.isBlank c) : operand? p = none := by
  have hstart : Text.trimStart p = [] := List.dropWhile_eq_nil_iff.mpr h
  rw [operand?, hstart]
  rfl

/-- An address comment is no operand. -/
theorem operand?_mark {after : Text} (h : ∀ c ∈ p, Text.isBlank c) :
    operand? (p ++ addressMark ++ after) = none := by
  have hstart : Text.trimStart (p ++ addressMark ++ after) = addressMark ++ after := by
    rw [List.append_assoc, Text.trimStart_append h, addressMark]
    exact Text.trimStart_cons_of_not (by decide)
  have hmark : Text.startsWith addressMark (addressMark ++ after) = true :=
    Text.startsWith_iff.mpr (List.prefix_append _ _)
  rw [operand?]
  simp only [hstart, hmark, Bool.or_true, if_true]

/-- A blank ends the operand. -/
theorem operand?_append_blank {b : Char} (hp : Text.trimStart p ≠ []) (hb : Text.isBlank b) :
    operand? (p ++ b :: t) = operand? p := by
  obtain ⟨d, q, hq⟩ := List.exists_cons_of_ne_nil hp
  have hstart : Text.trimStart (p ++ b :: t) = d :: q ++ b :: t := by
    rw [Text.trimStart, List.dropWhile_append, ← Text.trimStart, hq]
    rfl
  have hlead : Text.startsWith addressMark (d :: q ++ b :: t)
      = Text.startsWith addressMark (d :: q) := by
    rw [Bool.eq_iff_iff, Text.startsWith_iff, Text.startsWith_iff,
      Text.prefix_append_cons_iff (not_mem_addressMark_of_blank hb)]
  rw [operand?, operand?]
  simp only [hstart, hq, hlead, Text.firstToken_append_blank hb]
  rfl

/-- **What stands behind a blank in front of the address mark is no operand.** -/
theorem operand?_append_mark {b : Char} {s after : Text} (hb : Text.isBlank b)
    (hs : ∀ c ∈ s, Text.isBlank c) :
    operand? (p ++ b :: s ++ addressMark ++ after) = operand? p := by
  by_cases hp : Text.trimStart p = []
  · have hblank : ∀ c ∈ p, Text.isBlank c := List.dropWhile_eq_nil_iff.mp hp
    have hspaces : ∀ c ∈ b :: s, Text.isBlank c := List.forall_mem_cons.mpr ⟨hb, hs⟩
    rw [operand?_eq_none hblank]
    exact operand?_mark fun c hc => (List.mem_append.mp hc).elim (hblank c) (hspaces c)
  · rw [List.append_assoc, List.append_assoc, List.cons_append]
    exact operand?_append_blank hp hb

/-! ## Encoding suffixes -/

theorem stem?_eq_some {stem : Text} (h : stem? mnemonic = some stem) :
    ∃ suffix ∈ encodingSuffixes, mnemonic = stem ++ suffix := by
  obtain ⟨suffix, hmem, hsuffix⟩ := List.exists_of_findSome?_eq_some h
  exact ⟨suffix, hmem, Text.dropEnding?_eq_some_iff.mp hsuffix⟩

theorem stem?_eq_none_iff :
    stem? mnemonic = none ↔ ∀ suffix ∈ encodingSuffixes, ¬ suffix <:+ mnemonic := by
  simp only [stem?, List.findSome?_eq_none_iff, Text.dropEnding?_eq_none_iff]

/-- An encoding suffix is made of an underscore, a letter and two digits. -/
theorem mem_encodingSuffix {suffix : Text} (h : suffix ∈ encodingSuffixes) (hc : c ∈ suffix) :
    c ∈ "_e3264".toList := by
  rcases List.mem_pair.mp h with rfl | rfl
  · exact List.all_iff_forall_prop.mp (by decide) c hc
  · exact List.all_iff_forall_prop.mp (by decide) c hc

/-- **The line without its suffix**: the stem in the place of the mnemonic, and the operands
padded by what the suffix took. -/
theorem withoutSuffix?_append {d : Char} {m : Text} (hi : ∀ c ∈ indent, Text.isBlank c)
    (hd : ¬ Text.isBlank d) (hm : ' ' ∉ d :: m) :
    withoutSuffix? (indent ++ d :: m ++ ' ' :: t) = (stem? (d :: m)).map fun stem =>
      indent ++ stem ++ ' ' :: padded ((d :: m).length - stem.length) t := by
  have htake : (indent ++ d :: m ++ ' ' :: t).takeWhile Text.isBlank = indent := by
    rw [List.append_assoc, List.takeWhile_append_of_pos hi, List.cons_append,
      List.takeWhile_cons_of_neg hd, List.append_nil]
  have hdrop : (indent ++ d :: m ++ ' ' :: t).dropWhile Text.isBlank = d :: m ++ ' ' :: t := by
    rw [List.append_assoc, List.dropWhile_append_of_pos hi, List.cons_append,
      List.dropWhile_cons_of_neg hd]
  have hspace : ∀ c ∈ d :: m, decide (c ≠ ' ') = true := fun c hc =>
    decide_eq_true fun h => hm (h ▸ hc)
  have htake' : (d :: m ++ ' ' :: t).takeWhile (· ≠ ' ') = d :: m := by
    rw [List.takeWhile_append_of_pos hspace, List.takeWhile_cons_of_neg (by simp), List.append_nil]
  have hdrop' : (d :: m ++ ' ' :: t).dropWhile (· ≠ ' ') = ' ' :: t := by
    rw [List.dropWhile_append_of_pos hspace, List.dropWhile_cons_of_neg (by simp)]
  rw [withoutSuffix?]
  simp only [htake, hdrop, htake', hdrop', List.isEmpty_cons, Bool.false_eq_true, if_false]
  refine congrArg (fun f => (stem? (d :: m)).map f) (funext fun stem => ?_)
  rw [← padded_cons _ (by decide)]
  unfold padded
  cases Text.splitAround? addressMark (' ' :: t) <;> rfl

/-- A line on which no space follows the mnemonic keeps its suffix. -/
theorem withoutSuffix?_eq_none_of_no_space (hi : ∀ c ∈ indent, Text.isBlank c)
    (hm : ' ' ∉ mnemonic) :
    withoutSuffix? (indent ++ mnemonic) = none := by
  have hsub : ∀ c ∈ (indent ++ mnemonic).dropWhile Text.isBlank, decide (c ≠ ' ') = true := by
    intro c hc
    rw [List.dropWhile_append_of_pos hi] at hc
    exact decide_eq_true fun h => hm (h ▸ (List.dropWhile_suffix _).subset hc)
  rw [withoutSuffix?]
  simp only [List.dropWhile_eq_nil_iff.mpr hsub, List.isEmpty_nil, if_true]

/-- Every line that loses a suffix is an indent, a mnemonic and what follows the first space. -/
theorem withoutSuffix?_eq_some (h : withoutSuffix? line = some line') :
    ∃ indent d m t stem, line = indent ++ d :: m ++ ' ' :: t ∧ (∀ c ∈ indent, Text.isBlank c) ∧
      ¬ Text.isBlank d ∧ ' ' ∉ d :: m ∧ stem? (d :: m) = some stem ∧
      line' = indent ++ stem ++ ' ' :: padded ((d :: m).length - stem.length) t := by
  rcases Text.all_or_cut Text.isBlank line with hi | ⟨indent, d, inst, rfl, hi, hd⟩
  · rw [← List.append_nil line, withoutSuffix?_eq_none_of_no_space hi List.not_mem_nil] at h
    cases h
  have hd' : ' ' ≠ d := fun e => hd (by rw [← e]; decide)
  rcases Text.all_or_cut (fun c => decide (c ≠ ' ')) inst with hm | ⟨m, s, t, rfl, hm, hs⟩
  · have hno : ' ' ∉ d :: inst := fun hc =>
      (List.mem_cons.mp hc).elim hd' fun hc => absurd (hm ' ' hc) (by decide)
    rw [withoutSuffix?_eq_none_of_no_space hi hno] at h
    cases h
  · obtain rfl : s = ' ' := by simpa using hs
    have hno : ' ' ∉ d :: m := fun hc =>
      (List.mem_cons.mp hc).elim hd' fun hc => absurd (hm ' ' hc) (by decide)
    have hline : indent ++ d :: (m ++ ' ' :: t) = indent ++ d :: m ++ ' ' :: t := by
      rw [List.append_assoc, List.cons_append]
    rw [hline, withoutSuffix?_append hi hd hno] at h
    obtain ⟨stem, hstem, rfl⟩ := Option.map_eq_some_iff.mp h
    exact ⟨_, _, _, _, stem, hline, hi, hd, hno, hstem, rfl⟩

theorem mem_of_withoutSuffix? (h : withoutSuffix? line = some line') (hc : c ∈ line') :
    c ∈ line ∨ c = ' ' := by
  obtain ⟨indent, d, m, t, stem, rfl, -, -, -, hstem, rfl⟩ := withoutSuffix?_eq_some h
  obtain ⟨suffix, -, hm⟩ := stem?_eq_some hstem
  rw [hm]
  rcases List.mem_append.mp hc with hc | hc
  · refine .inl ?_
    simp only [List.mem_append] at hc ⊢
    tauto
  · rcases List.mem_cons.mp hc with hc | hc
    · exact .inr hc
    · refine (mem_padded hc).imp_left fun hc => ?_
      simp [hc]

/-- A line that is no comment is none without its suffix. -/
theorem isComment_of_withoutSuffix? (h : withoutSuffix? line = some line')
    (hc : isComment line = false) : isComment line' = false := by
  obtain ⟨indent, d, m, t, stem, rfl, -, -, -, hstem, rfl⟩ := withoutSuffix?_eq_some h
  obtain ⟨suffix, -, hm⟩ := stem?_eq_some hstem
  cases indent with
  | cons i indent => exact hc
  | nil =>
    cases stem with
    | nil => rfl
    | cons e stem =>
      obtain ⟨rfl, -⟩ := List.cons_eq_cons.mp hm
      exact hc

/-- The indent and a mnemonic without the address mark stand in front of the mark. -/
theorem splitAround?_code (hi : ∀ c ∈ indent, Text.isBlank c)
    (hm : ¬ addressMark <:+: mnemonic) :
    Text.splitAround? addressMark (indent ++ mnemonic ++ ' ' :: t) =
      (Text.splitAround? addressMark t).map
        fun parts => (indent ++ mnemonic ++ ' ' :: parts.1, parts.2) := by
  refine Text.splitAround?_append_of_not_infix (fun h => hm ?_) (by decide)
  exact (Text.infix_append_iff_of_disjoint_left (by simp [addressMark]) fun c hc =>
    not_mem_addressMark_of_blank (hi c hc)).mp h

/-- So they do not belong to the address comment. -/
theorem addressComment?_code (hi : ∀ c ∈ indent, Text.isBlank c)
    (hm : ¬ addressMark <:+: mnemonic) :
    addressComment? (indent ++ mnemonic ++ ' ' :: t) = addressComment? t := by
  rw [addressComment?, addressComment?, splitAround?_code hi hm, Option.map_map]
  rfl

/-- An encoding suffix does not make a jump. -/
theorem isJump_append_suffix {stem suffix : Text} (h : suffix ∈ encodingSuffixes) :
    isJump (stem ++ suffix) = isJump stem := by
  have hletters : ∀ c ∈ "_e3264".toList, c ∉ "branch".toList ∧ c ∉ "call".toList :=
    List.all_iff_forall_prop.mp (by decide)
  have key : ∀ mark : Text, mark ≠ [] → (∀ c ∈ suffix, c ∉ mark) →
      Text.hasMark mark (stem ++ suffix) = Text.hasMark mark stem := by
    intro mark hne hmark
    rw [Bool.eq_iff_iff, Text.hasMark_iff, Text.hasMark_iff,
      Text.infix_append_iff_of_disjoint hne hmark]
  rw [isJump, isJump, key _ (by decide) fun c hc => (hletters c (mem_encodingSuffix h hc)).1,
    key _ (by decide) fun c hc => (hletters c (mem_encodingSuffix h hc)).2]

/-- Behind the address mark the comment goes on to the end of the line. -/
theorem addressComment?_of_mark (h : addressMark <:+: p) :
    ∃ comment, ∀ t, addressComment? (p ++ t) = some (comment ++ t) := by
  cases hcut : Text.splitAround? addressMark p with
  | none => exact absurd h (Text.splitAround?_eq_none_iff.mp hcut)
  | some parts =>
    refine ⟨parts.2, fun t => ?_⟩
    rw [addressComment?, Text.splitAround?_append hcut t]
    rfl

/-- **A line without an address has none without its suffix.** -/
theorem location_eq_absent_of_withoutSuffix? (h : withoutSuffix? line = some line')
    (habsent : location line = .absent) : location line' = .absent := by
  obtain ⟨indent, d, m, t, stem, rfl, hi, -, -, hstem, rfl⟩ := withoutSuffix?_eq_some h
  obtain ⟨suffix, hsuffix, hm⟩ := stem?_eq_some hstem
  rw [hm] at habsent ⊢
  by_cases hmark : addressMark <:+: stem
  · -- the comment starts inside the stem and loses no more than the suffix
    obtain ⟨comment, hcomment⟩ :=
      addressComment?_of_mark (hmark.trans (List.suffix_append indent stem).isInfix)
    rw [← List.append_assoc, List.append_assoc (indent ++ stem), location_eq_absent_iff, hcomment]
      at habsent
    rw [location_eq_absent_iff, hcomment]
    intro comment' hc hcolon
    obtain rfl := Option.some.inj hc
    refine habsent _ rfl ?_
    simp only [List.mem_append, List.mem_cons] at hcolon ⊢
    rcases hcolon with h | h | h
    · exact .inl h
    · exact absurd h (by decide)
    · exact .inr (.inr (.inr ((mem_padded h).resolve_right (by decide))))
  · have hmark' : ¬ addressMark <:+: stem ++ suffix := fun h =>
      hmark ((Text.infix_append_iff_of_disjoint (by simp [addressMark]) fun c hc hmem => by
        have := mem_encodingSuffix hsuffix hc
        obtain rfl : c = '/' := by simpa [addressMark] using hmem
        exact absurd this (by decide)).mp h)
    rw [← habsent]
    refine location_congr ?_
    rw [addressComment?_code hi hmark, addressComment?_code hi hmark', addressComment?_padded]

end KernelIsa.Line
