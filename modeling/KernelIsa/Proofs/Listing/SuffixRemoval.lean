import KernelIsa.Proofs.Listing.LineForms

/-!
# Proofs/Listing/SuffixRemoval — what a line keeps without its suffix

Where one token stands in front of the first space, the line is an indent, the token and operands,
and it loses a suffix just if the token has one (`exists_token`); then it is the indent, the stem
and the operands padded by the length of the suffix.  The padding moves the address mark by just
what was taken off in front of it, and it stands behind the operand that a jump names.  So each
reading of the line gives what it gave before (`withoutSuffix?_keepsRest`).
-/

namespace KernelIsa.Line

open Text

variable {line line' indent stem suffix t before after : Text}

/-! ## Padding -/

theorem filter_padded (width : Nat) (t : Text) :
    (padded width t).filter (· ≠ ' ') = t.filter (· ≠ ' ') := by
  have hspaces : (List.replicate width ' ').filter (· ≠ ' ') = [] := by simp
  rw [padded]
  split
  · rfl
  · next before after hcut =>
    rw [splitAround?_eq_some hcut]
    simp only [List.filter_append, hspaces, List.append_nil]

theorem byteLength_spaces (width : Nat) : byteLength (List.replicate width ' ') = width := by
  induction width with
  | zero => rfl
  | succ width ih =>
    have hspace : ' '.utf8Size = 1 := by decide
    rw [List.replicate_succ, byteLength_cons, ih, hspace, Nat.add_comm]

theorem byteLength_suffix (h : suffix ∈ encodingSuffixes) : byteLength suffix = suffix.length := by
  rcases List.mem_pair.mp h with rfl | rfl <;> decide

/-! ## The parts of a line -/

/-- **The parts of a line whose first token is followed by a space**: an indent, the token and what
stands behind the space.  Without the suffix, the stem stands for the token. -/
theorem exists_token (hspace : (afterFirstToken (trimStart line)).head? = some ' ') :
    ∃ indent t, line = indent ++ firstToken (trimStart line) ++ ' ' :: t ∧
      (∀ c ∈ indent, isBlank c) ∧
      withoutSuffix? line = (stem? (firstToken (trimStart line))).map fun stem =>
        indent ++ stem ++ ' ' :: padded ((firstToken (trimStart line)).length - stem.length) t := by
  obtain ⟨t, hrest⟩ := List.head?_eq_some_iff.mp hspace
  have hstart : firstToken (trimStart line) ++ ' ' :: t = trimStart line := by
    rw [← hrest]
    exact List.takeWhile_append_dropWhile
  have hline : line = line.takeWhile isBlank ++ firstToken (trimStart line) ++ ' ' :: t := by
    rw [List.append_assoc, hstart]
    exact List.takeWhile_append_dropWhile.symm
  have hindent : ∀ c ∈ line.takeWhile isBlank, isBlank c := fun c hc => List.mem_takeWhile_imp hc
  have hne : firstToken (trimStart line) ≠ [] := fun hnil => by
    have hhead : ' ' ∈ (trimStart line).head? := by
      rw [← hstart, hnil]
      rfl
    exact not_isBlank_head_trimStart line ' ' hhead (by decide)
  refine ⟨_, t, hline, hindent, ?_⟩
  obtain ⟨d, m, hcons⟩ := List.exists_cons_of_ne_nil hne
  have htoken : ∀ c ∈ d :: m, ¬ isBlank c := hcons ▸ fun c => not_isBlank_of_mem_firstToken
  have hform := withoutSuffix?_append (t := t) hindent (htoken d List.mem_cons_self)
    fun hmem => htoken ' ' hmem (by decide)
  rwa [← hcons, ← hline] at hform

/-- **A line loses a suffix if its first token has one.** -/
theorem exists_withoutSuffix?_iff (hspace : (afterFirstToken (trimStart line)).head? = some ' ') :
    (∃ line', withoutSuffix? line = some line') ↔
      ∃ suffix ∈ encodingSuffixes, suffix <:+ firstToken (trimStart line) := by
  obtain ⟨indent, t, -, -, hform⟩ := exists_token hspace
  have hnone : withoutSuffix? line = none ↔
      ∀ suffix ∈ encodingSuffixes, ¬ suffix <:+ firstToken (trimStart line) := by
    rw [hform, Option.map_eq_none_iff, stem?_eq_none_iff]
  rw [← Option.ne_none_iff_exists', ne_eq, hnone]
  push Not
  rfl

/-- The parts of a line that loses its suffix. -/
theorem exists_parts (hspace : (afterFirstToken (trimStart line)).head? = some ' ')
    (h : withoutSuffix? line = some line') : ∃ indent stem suffix t,
      line = indent ++ (stem ++ suffix) ++ ' ' :: t ∧ (∀ c ∈ indent, isBlank c) ∧
      suffix ∈ encodingSuffixes ∧ (∀ c ∈ stem ++ suffix, ¬ isBlank c) ∧
      firstToken (trimStart line) = stem ++ suffix ∧
      line' = indent ++ stem ++ ' ' :: padded suffix.length t := by
  obtain ⟨indent, t, hline, hi, hform⟩ := exists_token hspace
  rw [hform] at h
  obtain ⟨stem, hstem, hparts⟩ := Option.map_eq_some_iff.mp h
  obtain ⟨suffix, hsuffix, htoken⟩ := stem?_eq_some hstem
  have hblank : ∀ c ∈ firstToken (trimStart line), ¬ isBlank c := fun c =>
    not_isBlank_of_mem_firstToken
  rw [htoken] at hline hblank hparts
  rw [List.length_append, Nat.add_sub_cancel_left] at hparts
  exact ⟨indent, stem, suffix, t, hline, hi, hsuffix, hblank, htoken, hparts.symm⟩

section Parts

variable (hi : ∀ c ∈ indent, isBlank c) (hmark : ¬ addressMark <:+: stem ++ suffix)

include hi hmark

/-- **The address mark stays in its column**, and what follows it stays as it is. -/
theorem splitAround?_withoutSuffix (hsuffix : suffix ∈ encodingSuffixes)
    (h : splitAround? addressMark (indent ++ (stem ++ suffix) ++ ' ' :: t) = some (before, after)) :
    ∃ before', splitAround? addressMark (indent ++ stem ++ ' ' :: padded suffix.length t)
        = some (before', after) ∧ byteLength before' = byteLength before := by
  have hstem : ¬ addressMark <:+: stem := fun h => hmark (h.trans (List.prefix_append _ _).isInfix)
  rw [splitAround?_code hi hmark] at h
  obtain ⟨⟨front, comment⟩, hcut, hparts⟩ := Option.map_eq_some_iff.mp h
  obtain ⟨rfl, rfl⟩ := Prod.mk.inj hparts
  rw [splitAround?_code hi hstem, splitAround?_padded, hcut]
  refine ⟨_, rfl, ?_⟩
  simp only [byteLength_append, byteLength_cons, byteLength_spaces, byteLength_suffix hsuffix]
  omega

theorem location_withoutSuffix :
    location (indent ++ stem ++ ' ' :: padded suffix.length t)
      = location (indent ++ (stem ++ suffix) ++ ' ' :: t) := by
  have hstem : ¬ addressMark <:+: stem := fun h => hmark (h.trans (List.prefix_append _ _).isInfix)
  refine location_congr ?_
  rw [addressComment?_code hi hstem, addressComment?_code hi hmark, addressComment?_padded]

/-- **A jump keeps its target**, if the address mark is missing or has a blank in front of it. -/
theorem branchTarget?_withoutSuffix (hsuffix : suffix ∈ encodingSuffixes) (hne : stem ≠ [])
    (hm : ∀ c ∈ stem ++ suffix, ¬ isBlank c)
    (hblank : ∀ before after,
      splitAround? addressMark (indent ++ (stem ++ suffix) ++ ' ' :: t) = some (before, after) →
        ∃ b ∈ before.getLast?, isBlank b) :
    branchTarget? (indent ++ stem ++ ' ' :: padded suffix.length t)
      = branchTarget? (indent ++ (stem ++ suffix) ++ ' ' :: t) := by
  have hstem : ∀ c ∈ stem, ¬ isBlank c := fun c hc => hm c (List.mem_append_left _ hc)
  rw [branchTarget?_append hi hne hstem (by decide),
    branchTarget?_append hi (List.append_ne_nil_of_left_ne_nil hne _) hm (by decide),
    isJump_append_suffix hsuffix]
  refine congrArg (fun target => if isJump stem then target else none) ?_
  rw [splitAround?_code hi hmark] at hblank
  cases hcut : splitAround? addressMark t with
  | none => rw [padded, hcut]
  | some parts =>
    obtain ⟨front, comment⟩ := parts
    rw [hcut] at hblank
    obtain ⟨b, hlast, hb⟩ := hblank _ _ rfl
    rw [List.getLast?_append_of_ne_nil _ (List.cons_ne_nil _ _)] at hlast
    obtain ⟨operand, hoperand⟩ := List.getLast?_eq_some_iff.mp hlast
    have hpadded : ' ' :: padded suffix.length t
        = operand ++ b :: List.replicate suffix.length ' ' ++ addressMark ++ comment := by
      rw [padded, hcut]
      dsimp only
      rw [← List.cons_append, ← List.cons_append, ← List.cons_append, hoperand]
      simp
    have hplain : ' ' :: t = operand ++ [b] ++ addressMark ++ comment := by
      rw [splitAround?_eq_some hcut, ← hoperand]
      rfl
    have hspaces : ∀ c ∈ List.replicate suffix.length ' ', isBlank c := fun c hc => by
      rw [List.eq_of_mem_replicate hc]
      decide
    rw [hpadded, hplain, operand?_append_mark hb hspaces,
      operand?_append_mark hb (List.forall_mem_nil _)]

end Parts

/-! ## The line without its suffix -/

/-- `line'` is `line` less an encoding suffix of its first token, up to spaces, and reads alike. -/
structure KeepsRest (line line' : Text) : Prop where
  /-- But for spaces, the suffix is all that is gone. -/
  characters : ∃ indent stem suffix operands, line = indent ++ (stem ++ suffix) ++ operands ∧
    (∀ c ∈ indent, isBlank c) ∧ firstToken (trimStart line) = stem ++ suffix ∧
    suffix ∈ encodingSuffixes ∧
    line'.filter (· ≠ ' ') = (indent ++ stem ++ operands).filter (· ≠ ' ')
  /-- Behind as many bytes as before comes the same address comment. -/
  comment : ∀ before after, splitAround? addressMark line = some (before, after) →
    byteLength line' = byteLength line ∧ ∃ before',
      splitAround? addressMark line' = some (before', after) ∧ byteLength before' = byteLength before
  location : location line' = location line
  /-- A jump has the same target, if no address mark stands directly behind other characters. -/
  target : (∀ before after, splitAround? addressMark line = some (before, after) →
    ∃ b ∈ before.getLast?, isBlank b) → branchTarget? line' = branchTarget? line
  label : label? line' = none

/-- **A line keeps everything but its suffix**: if its first token is followed by a space, holds no
address mark and is longer than its suffix, then it loses a suffix if the token has one, and the
line without it has the other characters, an address comment in the same column, the same location
and target, and is no label. -/
theorem withoutSuffix?_keepsRest (hspace : (afterFirstToken (trimStart line)).head? = some ' ')
    (hmark : ¬ addressMark <:+: firstToken (trimStart line))
    (hlong : ∀ suffix ∈ encodingSuffixes, suffix <:+ firstToken (trimStart line) →
      suffix.length < (firstToken (trimStart line)).length) :
    ((∃ line', withoutSuffix? line = some line') ↔
      ∃ suffix ∈ encodingSuffixes, suffix <:+ firstToken (trimStart line)) ∧
    ∀ line', withoutSuffix? line = some line' → KeepsRest line line' := by
  refine ⟨exists_withoutSuffix?_iff hspace, fun line' h => ?_⟩
  obtain ⟨indent, stem, suffix, t, rfl, hi, hsuffix, hm, htoken, rfl⟩ := exists_parts hspace h
  rw [htoken] at hmark hlong
  have hne : stem ≠ [] := by
    rintro rfl
    exact absurd (hlong suffix hsuffix (List.suffix_append _ _)) (Nat.lt_irrefl _)
  constructor
  · refine ⟨indent, stem, suffix, ' ' :: t, rfl, hi, htoken, hsuffix, ?_⟩
    simp only [List.filter_append, List.filter_cons, filter_padded]
  · intro before after hcut
    obtain ⟨before', hcut', hbefore⟩ := splitAround?_withoutSuffix hi hmark hsuffix hcut
    refine ⟨?_, before', hcut', hbefore⟩
    rw [splitAround?_eq_some hcut, splitAround?_eq_some hcut']
    simp only [byteLength_append, hbefore]
  · exact location_withoutSuffix hi hmark
  · exact branchTarget?_withoutSuffix hi hmark hsuffix hne hm
  · exact label?_eq_none_of_blank (List.mem_append_right _ List.mem_cons_self) (by decide)

/-- A jump with a suffix. -/
def suffixedJump : Text := "\ts_cbranch_e32 BB0_3   // 1110: BF85001C".toList

/-- Its plain form has the address comment in the same column. -/
def plainJump : Text := "\ts_cbranch BB0_3       // 1110: BF85001C".toList

/-- The jump loses its suffix and keeps the rest, with its target and location. -/
theorem withoutSuffix?_keepsRest_suffixedJump :
    withoutSuffix? suffixedJump = some plainJump ∧ KeepsRest suffixedJump plainJump ∧
      branchTarget? plainJump = some "BB0_3".toList ∧ location plainJump = .span 0x1110 4 := by
  have hplain : withoutSuffix? suffixedJump = some plainJump := by decide +kernel
  have htoken : firstToken (trimStart suffixedJump) = "s_cbranch_e32".toList := by decide +kernel
  have hkeeps : KeepsRest suffixedJump plainJump := by
    refine (withoutSuffix?_keepsRest (by decide +kernel) ?_ ?_).2 _ hplain
    · rw [htoken, ← splitAround?_eq_none_iff]
      decide +kernel
    · rw [htoken]
      decide +kernel
  have htarget : branchTarget? suffixedJump = some "BB0_3".toList := by decide +kernel
  have hlocation : location suffixedJump = .span 0x1110 4 := by decide +kernel
  refine ⟨hplain, hkeeps, (hkeeps.target fun before after hcut => ?_).trans htarget,
    hkeeps.location.trans hlocation⟩
  have hbefore : splitAround? addressMark suffixedJump
      = some ("\ts_cbranch_e32 BB0_3   ".toList, " 1110: BF85001C".toList) := by decide +kernel
  obtain ⟨rfl, rfl⟩ := Prod.mk.inj (Option.some.inj (hbefore.symm.trans hcut))
  exact ⟨' ', by decide +kernel, by decide⟩

end KernelIsa.Line
