import KernelIsa.Proofs.Listing.ReducedText
import Mathlib.Algebra.GroupWithZero.Nat
import Mathlib.Algebra.Order.BigOperators.Group.List
import Mathlib.Algebra.Order.Group.Nat
import Mathlib.Data.List.Infix
import Mathlib.Order.Bounds.Basic

/-!
# Proofs/Listing/ContiguousCode — the cut in terms of widths

The reduction measures every instruction by its distance from the first one.  On contiguous code
that distance is the sum of the widths in front (`covers_contiguous`), so that the code size covers
the least number of instructions whose widths reach it (`isLeast_reach`), and the edits leave their
address comments as they are (`addressed_edited`).
-/

namespace KernelIsa.Reduction

open Line

variable {size address k r : Nat} {origin : Option Nat} {fragment line : Text}
  {named body kept : List Text} {widths : List Nat}

/-! ## Widths that reach a size -/

/-- How many of some widths it takes to reach `r` bytes; all of them if they do not. -/
def reach (r : Nat) : List Nat → Nat
  | [] => 0
  | width :: widths => if r ≤ width then 1 else reach (r - width) widths + 1

/-- `k` is the least number of widths that reach `size` bytes, or all of them if none do. -/
def Reaches (size : Nat) (widths : List Nat) (k : Nat) : Prop :=
  IsLeast {j | size ≤ (widths.take j).sum} k ∨ widths.sum < size ∧ k = widths.length

theorem sum_take_le (widths : List Nat) (j : Nat) : (widths.take j).sum ≤ widths.sum := by
  rw [← List.sum_take_add_sum_drop widths j]
  omega

theorem reach_eq_length (h : widths.sum < r) : reach r widths = widths.length := by
  induction widths generalizing r with
  | nil => rfl
  | cons width widths ih =>
    rw [List.sum_cons] at h
    rw [reach, if_neg (by omega), ih (by omega), List.length_cons]

theorem exists_succ_of_le_sum {j : Nat} (hr : 0 < r) (h : r ≤ (widths.take j).sum) :
    ∃ i, j = i + 1 := by
  cases j with
  | zero => exact absurd h (Nat.not_le.mpr hr)
  | succ i => exact ⟨i, rfl⟩

/-- **`reach` is the least number of widths that reach the bytes**, if they do. -/
theorem isLeast_reach (hr : 0 < r) (h : r ≤ widths.sum) :
    IsLeast {j | r ≤ (widths.take j).sum} (reach r widths) := by
  induction widths generalizing r with
  | nil => exact absurd h (Nat.not_le.mpr hr)
  | cons width widths ih =>
    rw [List.sum_cons] at h
    by_cases hw : r ≤ width
    · rw [reach, if_pos hw]
      refine ⟨by simpa using hw, fun j hj => ?_⟩
      obtain ⟨i, rfl⟩ := exists_succ_of_le_sum hr hj
      exact Nat.le_add_left 1 i
    · obtain ⟨hreach, hleast⟩ := ih (r := r - width) (by omega) (by omega)
      rw [reach, if_neg hw]
      refine ⟨?_, fun j hj => ?_⟩
      · change r - width ≤ (widths.take (reach (r - width) widths)).sum at hreach
        change r ≤ ((width :: widths).take (reach (r - width) widths + 1)).sum
        rw [List.take_succ_cons, List.sum_cons]
        omega
      · obtain ⟨i, rfl⟩ := exists_succ_of_le_sum hr hj
        have hi : r ≤ width + (widths.take i).sum := by simpa using hj
        have hle : reach (r - width) widths ≤ i :=
          hleast (show r - width ≤ (widths.take i).sum by omega)
        omega

theorem Reaches.eq_reach (hs : 0 < size) (h : Reaches size widths k) : k = reach size widths := by
  rcases h with h | ⟨hsum, hk⟩
  · have hk : size ≤ (widths.take k).sum := h.1
    exact h.unique (isLeast_reach hs (Nat.le_trans hk (sum_take_le widths k)))
  · rw [hk, reach_eq_length hsum]

/-! ## Contiguous instructions -/

/-- The lines that give an address. -/
def addressed (lines : List Text) : List Text := lines.filter fun line => place line ≠ .absent

/-- Instructions of the given widths, each behind the other from `address` on. -/
def spansFrom (address : Nat) : List Nat → List Line.Location
  | [] => []
  | width :: widths => .span address width :: spansFrom (address + width) widths

theorem addressed_cons_of_absent (h : place line = .absent) (lines : List Text) :
    addressed (line :: lines) = addressed lines :=
  List.filter_cons_of_neg (by simp [h])

theorem addressed_cons (h : place line ≠ .absent) (lines : List Text) :
    addressed (line :: lines) = line :: addressed lines :=
  List.filter_cons_of_pos (by simpa using h)

/-- The first of contiguous instructions, and the others behind it. -/
theorem map_place_cons (h : (line :: body).map place = spansFrom address widths) :
    ∃ width rest, widths = width :: rest ∧ place line = .span address width ∧
      body.map place = spansFrom (address + width) rest := by
  cases widths with
  | nil => cases h
  | cons width rest =>
    obtain ⟨hline, hbody⟩ := List.cons_eq_cons.mp h
    exact ⟨width, rest, rfl, hline, hbody⟩

/-- `kept` are the lines of a body up to the instruction that reaches `r` bytes; it is the last one
of them if the widths reach `r`. -/
structure KeepsReach (r : Nat) (widths : List Nat) (body kept : List Text) : Prop where
  instructions : addressed kept = (addressed body).take (reach r widths)
  last : r ≤ widths.sum → ∃ last, kept.getLast? = some last ∧ (addressed kept).getLast? = some last

theorem KeepsReach.cons_of_absent (h : KeepsReach r widths body kept)
    (hplace : place line = .absent) :
    KeepsReach r widths (line :: body) (line :: kept) := by
  refine ⟨?_, fun hsum => ?_⟩
  · rw [addressed_cons_of_absent hplace, addressed_cons_of_absent hplace, h.instructions]
  · obtain ⟨last, hkept, hlast⟩ := h.last hsum
    rw [addressed_cons_of_absent hplace, List.getLast?_cons, hkept]
    exact ⟨last, rfl, hlast⟩

theorem KeepsReach.cons {width : Nat} (h : KeepsReach (r - width) widths body kept)
    (hplace : place line ≠ .absent) (hr : width < r) :
    KeepsReach r (width :: widths) (line :: body) (line :: kept) := by
  refine ⟨?_, fun hsum => ?_⟩
  · rw [reach, if_neg (Nat.not_le.mpr hr), addressed_cons hplace, addressed_cons hplace,
      h.instructions, List.take_succ_cons]
  · rw [List.sum_cons] at hsum
    obtain ⟨last, hkept, hlast⟩ := h.last (by omega)
    rw [addressed_cons hplace, List.getLast?_cons, List.getLast?_cons, hkept, hlast]
    exact ⟨last, rfl, rfl⟩

theorem keepsReach_singleton {width : Nat} (hplace : place line ≠ .absent) (hr : r ≤ width) :
    KeepsReach r (width :: widths) (line :: body) [line] := by
  have hline : addressed [line] = [line] := addressed_cons hplace []
  refine ⟨?_, fun _ => ⟨line, rfl, by rw [hline]; rfl⟩⟩
  rw [reach, if_pos hr, hline, addressed_cons hplace]
  rfl

/-- **The cover of contiguous code**: if `r` bytes are left of the size at `address`, it takes the
instructions that reach `r`, and ends with the last one of them if there are enough. -/
theorem covers_contiguous (hspans : (addressed body).map place = spansFrom address widths)
    (hlimit : address + widths.sum < Word.limit) (hbase : origin.getD address ≤ address)
    (hsize : r + (address - origin.getD address) = size) (hr : 0 < r) :
    ∃ kept, Covers size origin body kept ∧ KeepsReach r widths body kept := by
  induction body generalizing address origin r widths with
  | nil =>
    refine ⟨[], .nil, List.take_nil.symm, fun h => ?_⟩
    cases widths with
    | nil => exact absurd h (Nat.not_le.mpr hr)
    | cons width widths => cases hspans
  | cons line rest ih =>
    by_cases hplace : place line = .absent
    · rw [addressed_cons_of_absent hplace] at hspans
      obtain ⟨kept, hcover, hreach⟩ := ih hspans hlimit hbase hsize hr
      exact ⟨line :: kept, .absent hplace hcover, hreach.cons_of_absent hplace⟩
    · rw [addressed_cons hplace] at hspans
      obtain ⟨width, widths, rfl, hspan, hrest⟩ := map_place_cons hspans
      rw [List.sum_cons] at hlimit
      have hadd : Word.add (address - origin.getD address) width
          = .ok (address - origin.getD address + width) := if_pos (by omega)
      by_cases hreach : r ≤ width
      · exact ⟨[line], .last hspan hadd (by omega), keepsReach_singleton hplace hreach⟩
      · have hbase' : (some (origin.getD address)).getD (address + width) ≤ address + width := by
          rw [Option.getD_some]
          omega
        have hsize' : r - width + (address + width
            - (some (origin.getD address)).getD (address + width)) = size := by
          rw [Option.getD_some]
          omega
        obtain ⟨kept, hcover, hkept⟩ := ih hrest (by omega) hbase' hsize' (by omega)
        exact ⟨line :: kept, .more hspan hadd (by omega) hcover, hkept.cons hplace (by omega)⟩

/-! ## Edited instructions -/

/-- An instruction line has a space behind its mnemonic, and no slash in it. -/
def IsInstruction (line : Text) : Prop :=
  ∃ indent mnemonic t, line = indent ++ mnemonic ++ ' ' :: t ∧ (∀ c ∈ indent, Text.isBlank c) ∧
    mnemonic ≠ [] ∧ ∀ c ∈ mnemonic, ¬ Text.isBlank c ∧ c ≠ '/'

/-- The line without the encoding suffix, if it has one. -/
def unsuffixed (line : Text) : Text := (withoutSuffix? line).getD line

/-- **Taking off the suffix keeps the address comment** of an instruction. -/
theorem IsInstruction.addressComment?_eq (h : IsInstruction line) :
    addressComment? (unsuffixed line) = addressComment? line := by
  obtain ⟨indent, mnemonic, t, rfl, hi, hne, hm⟩ := h
  obtain ⟨d, m, rfl⟩ := List.exists_cons_of_ne_nil hne
  have hspace : ' ' ∉ d :: m := fun hc => (hm _ hc).1 (by decide)
  rw [unsuffixed, withoutSuffix?_append hi (hm d List.mem_cons_self).1 hspace]
  cases hstem : stem? (d :: m) with
  | none => rfl
  | some stem =>
    obtain ⟨suffix, -, hsuffix⟩ := stem?_eq_some hstem
    have hmark : ∀ u : Text, (∀ c ∈ u, c ∈ d :: m) → ¬ addressMark <:+: u := fun u hu hin =>
      (hm '/' (hu _ (hin.subset (by decide)))).2 rfl
    have hstem' : ∀ c ∈ stem, c ∈ d :: m := fun c hc => by
      rw [hsuffix]
      exact List.mem_append_left _ hc
    rw [Option.map_some, Option.getD_some, addressComment?_code hi (hmark stem hstem'),
      addressComment?_code hi (hmark (d :: m) fun _ hc => hc), addressComment?_padded]

theorem isComment_eq_false (h : place line ≠ .absent) : isComment line = false := by
  rw [place] at h
  split at h
  · exact absurd rfl h
  · next hc => exact Bool.eq_false_iff.mpr hc

theorem IsInstruction.place_eq (h : IsInstruction line) (hplace : place line ≠ .absent) :
    place (unsuffixed line) = place line := by
  refine place_congr ?_ (location_congr h.addressComment?_eq)
  have hc := isComment_eq_false hplace
  rw [unsuffixed]
  cases hs : withoutSuffix? line with
  | none => rfl
  | some line' => exact (isComment_of_withoutSuffix? hs hc).trans hc.symm

/-- An edit takes at most the suffix off an instruction. -/
theorem IsInstruction.edit_eq (h : IsInstruction line) (hplace : place line ≠ .absent)
    (hangle : ¬ [' ', '<'] <:+: line) :
    (edit named line).result? line = some (unsuffixed line) := by
  have hl : label? line = none := by
    obtain ⟨indent, mnemonic, t, rfl, -⟩ := h
    exact label?_eq_none_of_blank (c := ' ') (by simp) (by decide)
  rw [edit, hl, plainLabel?_eq_none_of_no_opening hangle, isComment_eq_false hplace, unsuffixed]
  cases withoutSuffix? line <;> rfl

/-- A line without an address is edited to none with an address. -/
theorem place_of_edit {line' : Text} (hplace : place line = .absent)
    (hangle : ¬ [' ', '<'] <:+: line) (h : (edit named line).result? line = some line') :
    place line' = .absent := by
  rw [edit, plainLabel?_eq_none_of_no_opening hangle] at h
  split at h
  · split at h
    · rw [← Option.some.inj h, hplace]
    · cases h
  · cases hc : isComment line with
    | true =>
      rw [hc] at h
      rw [← Option.some.inj h, hplace]
    | false =>
      rw [hc] at h
      cases hs : withoutSuffix? line with
      | none =>
        rw [hs] at h
        rw [← Option.some.inj h, hplace]
      | some stripped =>
        rw [hs] at h
        obtain rfl := Option.some.inj h
        rw [place, hc] at hplace
        rw [place, location_eq_absent_of_withoutSuffix? hs hplace, ite_self]

/-- **The edited lines give the addresses that the lines gave**, on the same instructions. -/
theorem addressed_edited (hangle : ∀ line ∈ body, ¬ [' ', '<'] <:+: line)
    (hinst : ∀ line ∈ addressed body, IsInstruction line) :
    addressed (edited named body) = (addressed body).map unsuffixed := by
  induction body with
  | nil => rfl
  | cons line body ih =>
    obtain ⟨hline, hangle⟩ := List.forall_mem_cons.mp hangle
    by_cases hplace : place line = .absent
    · rw [addressed_cons_of_absent hplace] at hinst ⊢
      rw [← ih hangle hinst]
      cases hedit : (edit named line).result? line with
      | none => rw [edited_cons_none hedit]
      | some line' =>
        rw [edited_cons_some hedit]
        exact addressed_cons_of_absent (place_of_edit hplace hline hedit) _
    · rw [addressed_cons hplace, List.forall_mem_cons] at hinst
      have hplace' : place (unsuffixed line) ≠ .absent := by rwa [hinst.1.place_eq hplace]
      rw [addressed_cons hplace, List.map_cons, ← ih hangle hinst.2,
        edited_cons_some (hinst.1.edit_eq hplace hline), addressed_cons hplace']

/-! ## The cut -/

/-- The instructions of `reduced` are the first `k` of `fragment`, without their suffixes, and with
the places and address comments that they had. -/
structure KeepsFirst (k : Nat) (fragment reduced : Text) : Prop where
  lines : addressed (bodyOf reduced) = ((addressed (bodyOf fragment)).take k).map unsuffixed
  places : (addressed (bodyOf reduced)).map place = ((addressed (bodyOf fragment)).take k).map place
  comments : (addressed (bodyOf reduced)).map addressComment?
    = ((addressed (bodyOf fragment)).take k).map addressComment?

/-- `reduced` is made of the lines of `fragment` up to its `k`-th instruction. -/
def EndsBehind (k : Nat) (fragment reduced : Text) : Prop :=
  ∃ before last dropped, bodyOf fragment = before ++ [last] ++ dropped ∧
    addressed (before ++ [last]) = (addressed (bodyOf fragment)).take k ∧
    (addressed (before ++ [last])).getLast? = some last ∧
    bodyOf reduced = edited (targets (before ++ [last])) (before ++ [last])

/-- The edited lines have the instructions of the lines. -/
theorem keepsFirst_edited {reduced : Text} (hangle : ∀ line ∈ kept, ¬ [' ', '<'] <:+: line)
    (hinst : ∀ line ∈ addressed kept, IsInstruction line)
    (haddressed : addressed kept = (addressed (bodyOf fragment)).take k)
    (hreduced : bodyOf reduced = edited (targets kept) kept) : KeepsFirst k fragment reduced := by
  have hplace : ∀ line ∈ addressed kept, place line ≠ .absent := fun line hline => by
    simpa using (List.mem_filter.mp hline).2
  have hkept : addressed (edited (targets kept) kept) = (addressed kept).map unsuffixed :=
    addressed_edited hangle hinst
  refine ⟨?_, ?_, ?_⟩
  · rw [hreduced, hkept, haddressed]
  · rw [hreduced, hkept, ← haddressed, List.map_map]
    exact List.map_congr_left fun line hline => (hinst line hline).place_eq (hplace line hline)
  · rw [hreduced, hkept, ← haddressed, List.map_map]
    exact List.map_congr_left fun line hline => (hinst line hline).addressComment?_eq

/-- **On contiguous code a reduction keeps the instructions that reach the size**: the least number
of them, each with its address comment, and nothing behind the last one of them. -/
theorem apply_contiguous (hcr : '\r' ∉ fragment) (hangle : ¬ [' ', '<'] <:+: fragment)
    (hinst : ∀ line ∈ addressed (bodyOf fragment), IsInstruction line)
    (hspans : (addressed (bodyOf fragment)).map place = spansFrom address widths)
    (hlimit : address + widths.sum < Word.limit) (hsize : 0 < size) (hk : Reaches size widths k) :
    ∃ reduced, apply size fragment = .ok reduced ∧ KeepsFirst k fragment reduced ∧
      (size ≤ widths.sum → EndsBehind k fragment reduced) := by
  obtain rfl := hk.eq_reach hsize
  have hbase : (none : Option Nat).getD address ≤ address := Nat.le_refl address
  have hstart : size + (address - (none : Option Nat).getD address) = size := by
    rw [Option.getD_none]
    omega
  obtain ⟨kept, hcover, haddressed, hlast⟩ := covers_contiguous hspans hlimit hbase hstart hsize
  obtain ⟨dropped, hbody⟩ := hcover.isPrefix
  have happly := apply_of_covers hcover
  obtain ⟨-, hreduced⟩ := lines_apply hcr hcover happly
  have hangle' : ∀ line ∈ kept, ¬ [' ', '<'] <:+: line := fun line hline hin => hangle (by
    have hmem : line ∈ bodyOf fragment := hcover.isPrefix.subset hline
    exact hin.trans (Text.infix_of_mem_lines (mem_lines_of_mem_bodyOf hmem)))
  have hinst' : ∀ line ∈ addressed kept, IsInstruction line := fun line hline =>
    hinst line (List.mem_of_mem_take (haddressed ▸ hline))
  refine ⟨_, happly, keepsFirst_edited hangle' hinst' haddressed hreduced, fun hsum => ?_⟩
  obtain ⟨last, hlast, hinstruction⟩ := hlast hsum
  obtain ⟨before, rfl⟩ := List.getLast?_eq_some_iff.mp hlast
  exact ⟨before, last, dropped, hbody.symm, haddressed, hinstruction, hreduced⟩

/-- Two instructions behind a label. -/
def sampleCode : Text := "; k\n; k\nk:\n\ts_nop // 0: BF\n\ts_nop_e32 // 4: BF\n".toList

/-- The sample, cut behind its first instruction. -/
theorem apply_contiguous_sampleCode :
    ∃ reduced, apply 4 sampleCode = .ok reduced ∧ KeepsFirst 1 sampleCode reduced ∧
      (4 ≤ [4, 4].sum → EndsBehind 1 sampleCode reduced) := by
  have hlines : addressed (bodyOf sampleCode)
      = ["\ts_nop // 0: BF".toList, "\ts_nop_e32 // 4: BF".toList] := by decide +kernel
  have hplaces : (addressed (bodyOf sampleCode)).map place = spansFrom 0 [4, 4] := by decide +kernel
  have hinst : ∀ line ∈ addressed (bodyOf sampleCode), IsInstruction line := by
    rw [hlines]
    simp only [List.forall_mem_cons]
    have htab : ∀ c ∈ ['\t'], Text.isBlank c := List.all_iff_forall_prop.mp (by decide)
    have hnop : ∀ mnemonic : Text, (mnemonic.all fun c => ¬ Text.isBlank c ∧ c ≠ '/') = true →
        ∀ c ∈ mnemonic, ¬ Text.isBlank c ∧ c ≠ '/' := fun _ => List.all_iff_forall_prop.mp
    exact ⟨⟨['\t'], "s_nop".toList, "// 0: BF".toList, by decide, htab, by decide,
        hnop _ (by decide)⟩,
      ⟨['\t'], "s_nop_e32".toList, "// 4: BF".toList, by decide, htab, by decide,
        hnop _ (by decide)⟩,
      fun line h => absurd h List.not_mem_nil⟩
  have hleast : IsLeast {j | 4 ≤ ([4, 4].take j).sum} 1 := by
    refine ⟨by decide, fun j hj => Nat.pos_of_ne_zero fun h => ?_⟩
    rw [h] at hj
    exact absurd hj (by decide)
  exact apply_contiguous (by decide +kernel) (by decide +kernel) hinst hplaces (by decide)
    (by decide) (.inl hleast)

end KernelIsa.Reduction
