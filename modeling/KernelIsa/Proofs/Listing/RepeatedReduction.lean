import KernelIsa.Proofs.Listing.RegularLine

/-!
# Proofs/Listing/RepeatedReduction — reducing what was reduced

On a listing of regular lines an edit keeps places and jump targets, so a second reduction finds in
the text of the first one the coverage and the named labels that it would find in the listing itself
(`Covers.edited`, `targets_edited`), and edits by fewer labels edit the more (`edited_edited`).
Hence two reductions are one to the smaller size.
-/

namespace KernelIsa.Reduction

open Line

variable {n m size : Nat} {origin : Option Nat} {fragment result line : Text}
  {named named' kept body : List Text}

/-! ## Edited lines -/

theorem edit_of_label {name : Text} (h : label? line = some name) :
    edit named line = if name ∈ named then .keep else .drop := by
  rw [edit, h]
  simp only [List.contains_iff_mem]

theorem mem_of_prefix_regular (hreg : ∀ line ∈ body, Regular line) (hpre : kept <+: body) :
    ∀ line ∈ kept, Regular line :=
  fun line hline => hreg line (hpre.subset hline)

/-- **The edited lines jump where the lines jumped.** -/
theorem targets_edited (hreg : ∀ line ∈ kept, Regular line) :
    targets (edited named kept) = targets kept := by
  rw [targets, targets, edited, List.filterMap_filterMap]
  refine List.filterMap_congr fun line hline => ?_
  rcases (hreg line hline).label_or_settled with ⟨name, hname, htarget, -⟩ | ⟨line', h⟩
  · rw [edit_of_label hname]
    split
    · rfl
    · exact htarget.symm
  · rw [h.edit_eq]
    exact h.target

/-- **The edited lines lie where the lines lay.** -/
theorem Covers.edited (h : Covers size origin body kept) (hreg : ∀ line ∈ body, Regular line)
    (named : List Text) : Covers size origin (edited named body) (edited named kept) := by
  refine h.filterMap (fun line hline hdrop => ?_) fun line hline line' hedit => ?_
  · rcases (hreg line hline).label_or_settled with ⟨name, -, -, hplace⟩ | ⟨line', h⟩
    · exact hplace
    · rw [h.edit_eq] at hdrop
      cases hdrop
  · rcases (hreg line hline).label_or_settled with ⟨name, hname, -⟩ | ⟨line'', h⟩
    · rw [edit_of_label hname] at hedit
      split at hedit
      · rw [← Option.some.inj hedit]
      · cases hedit
    · rw [h.edit_eq] at hedit
      rw [← Option.some.inj hedit]
      exact h.place

/-- **Edits by fewer labels edit the more.** -/
theorem edited_edited (hreg : ∀ line ∈ kept, Regular line) (hsub : named' ⊆ named) :
    edited named' (edited named kept) = edited named' kept := by
  rw [edited, edited, edited, List.filterMap_filterMap]
  refine List.filterMap_congr fun line hline => ?_
  rcases (hreg line hline).label_or_settled with ⟨name, hname, -⟩ | ⟨line', h⟩
  · rw [edit_of_label hname, edit_of_label hname]
    by_cases hnamed : name ∈ named
    · rw [if_pos hnamed]
      exact congrArg (fun e => Edit.result? line e) (edit_of_label hname)
    · rw [if_neg hnamed, if_neg fun h => hnamed (hsub h)]
      rfl
  · rw [h.edit_eq, h.edit_eq]
    exact congrArg (fun e => Edit.result? line' e) (h.keep named')

/-- No line that an edit left is edited again. -/
theorem edit_of_mem_edited (hreg : ∀ line ∈ kept, Regular line) :
    ∀ line ∈ edited named kept, edit named line = .keep := by
  intro line' hline'
  obtain ⟨line, hline, hedit⟩ := List.mem_filterMap.mp hline'
  rcases (hreg line hline).label_or_settled with ⟨name, hname, -⟩ | ⟨line'', h⟩
  · rw [edit_of_label hname] at hedit
    split at hedit
    · next hnamed =>
      rw [← Option.some.inj hedit, edit_of_label hname, if_pos hnamed]
    · cases hedit
  · rw [h.edit_eq] at hedit
    rw [← Option.some.inj hedit]
    exact h.keep named

theorem targets_subset (hpre : kept <+: body) : targets kept ⊆ targets body :=
  (hpre.filterMap branchTarget?).subset

/-! ## Two reductions -/

/-- **What a reduction left, no larger size reduces.** -/
theorem reduce_apply_of_ge (hcr : '\r' ∉ fragment) (hreg : ∀ line ∈ bodyOf fragment, Regular line)
    (hle : m ≤ n) (hcover : Covers m none (bodyOf fragment) kept)
    (happly : apply m fragment = .ok result) : reduce result n = .ok .unchanged := by
  have hkept := mem_of_prefix_regular hreg hcover.isPrefix
  obtain ⟨-, hbody⟩ := lines_apply hcr hcover happly
  have hcover' : Covers n none (bodyOf result) (bodyOf result) := by
    rw [hbody]
    exact (hcover.covered hle).edited hkept _
  have huntouched : Untouched (bodyOf result) (bodyOf result) := by
    refine ⟨rfl, ?_⟩
    rw [hbody, targets_edited hkept]
    exact edit_of_mem_edited hkept
  rw [reduce_of_covers hcover', outcome, if_pos huntouched]

/-- The labels that the fewer lines name edit them as after the edits by all labels. -/
theorem edited_targets_edited (hreg : ∀ line ∈ kept, Regular line) (hpre : kept <+: body) :
    edited (targets (edited (targets body) kept)) (edited (targets body) kept)
      = edited (targets kept) kept := by
  rw [targets_edited hreg, edited_edited hreg (targets_subset hpre)]

/-- **A smaller size reduces what a reduction left as it reduces the fragment.** -/
theorem apply_of_le (hcr : '\r' ∉ fragment) (hreg : ∀ line ∈ bodyOf fragment, Regular line)
    (hle : n ≤ m) (hcover : Covers m none (bodyOf fragment) kept)
    (happly : apply m fragment = .ok result) : apply n result = apply n fragment := by
  have hkept := mem_of_prefix_regular hreg hcover.isPrefix
  obtain ⟨hheader, hbody⟩ := lines_apply hcr hcover happly
  rw [apply_of_covers hcover, outcome] at happly
  by_cases huntouched : Untouched (bodyOf fragment) kept
  · rw [if_pos huntouched] at happly
    rw [← Except.ok.inj happly]
    rfl
  rw [if_neg huntouched] at happly
  have hwritten : Text.ofLines (headerOf result ++ bodyOf result) = result := by
    rw [hheader, hbody]
    exact Except.ok.inj happly
  obtain ⟨kept', hsmall, hsmall'⟩ := hcover.of_le hle
  have hcover' : Covers n none (bodyOf result) (edited (targets kept) kept') := by
    rw [hbody]
    exact hsmall'.edited hkept _
  have hfragment : ¬ Untouched (bodyOf fragment) kept' := fun h => by
    have heq : kept' = kept := hsmall'.isPrefix.eq_of_length_le (by
      rw [h.1]
      exact hcover.isPrefix.length_le)
    exact huntouched (heq ▸ h)
  -- both reductions write the header and the lines that the smaller size covers
  rw [apply_of_covers hcover', apply_of_covers hsmall, getD_outcome hwritten, hheader,
    edited_targets_edited (mem_of_prefix_regular hkept hsmall'.isPrefix) hsmall'.isPrefix, outcome,
    if_neg hfragment]
  rfl

/-- A reduced text was left by the lines that the code covers. -/
theorem cover_of_reduced (h : reduce fragment m = .ok (.reduced result)) :
    apply m fragment = .ok result ∧ ∃ kept, Covers m none (bodyOf fragment) kept := by
  obtain ⟨kept, hcover, -⟩ := reduce_eq_reduced_iff.mp h
  exact ⟨by rw [apply, h]; rfl, kept, hcover⟩

/-- What a reduction left is reduced as the fragment is, by the smaller of the sizes. -/
theorem apply_of_apply (hcr : '\r' ∉ fragment) (hreg : ∀ line ∈ bodyOf fragment, Regular line)
    (happly : apply m fragment = .ok result) : apply n result = apply (min n m) fragment := by
  cases hcover : coverFrom m none (bodyOf fragment) with
  | error e => cases happly.symm.trans (apply_of_coverFrom_error hcover)
  | ok covered =>
    rcases Nat.le_total n m with hle | hle
    · rw [Nat.min_eq_left hle]
      cases covered with
      | none => rw [Except.ok.inj (happly.symm.trans (apply_of_coverFrom_none hcover))]
      | some kept => exact apply_of_le hcr hreg hle (covers_of_coverFrom hcover) happly
    · rw [Nat.min_eq_right hle, happly]
      cases covered with
      | none =>
        rw [Except.ok.inj (happly.symm.trans (apply_of_coverFrom_none hcover))]
        exact apply_of_coverFrom_none (coverFrom_none_of_le hle hcover)
      | some kept =>
        rw [apply, reduce_apply_of_ge hcr hreg hle (covers_of_coverFrom hcover) happly]
        rfl

/-- **Reducing twice is reducing once to the smaller size**, and what a reduction changed, a second
one to no smaller a size does not change. -/
theorem apply_apply {name text : Text} (hname : '\n' ∉ name)
    (hcr : '\r' ∉ Fragment.withHeader name text) (hreg : ∀ line ∈ Text.lines text, Regular line)
    (hn : ∃ result, apply n (Fragment.withHeader name text) = .ok result)
    (hm : ∃ result, apply m (Fragment.withHeader name text) = .ok result) :
    (∃ once twice, apply m (Fragment.withHeader name text) = .ok once ∧ apply n once = .ok twice ∧
        apply (min n m) (Fragment.withHeader name text) = .ok twice) ∧
      ∀ reduced, reduce (Fragment.withHeader name text) m = .ok (.reduced reduced) →
        ∀ size, m ≤ size → reduce reduced size = .ok .unchanged := by
  rw [← bodyOf_withHeader hname hcr] at hreg
  generalize Fragment.withHeader name text = fragment at hcr hreg hn hm ⊢
  refine ⟨?_, fun reduced hreduced size hle => ?_⟩
  · obtain ⟨once, honce⟩ := hm
    have hmin : ∃ twice, apply (min n m) fragment = .ok twice := by
      rcases Nat.le_total n m with hle | hle
      · rwa [Nat.min_eq_left hle]
      · rw [Nat.min_eq_right hle]
        exact ⟨once, honce⟩
    obtain ⟨twice, htwice⟩ := hmin
    exact ⟨once, twice, honce, (apply_of_apply hcr hreg honce).trans htwice, htwice⟩
  · obtain ⟨happly, kept, hcover⟩ := cover_of_reduced hreduced
    exact reduce_apply_of_ge hcr hreg hle hcover happly

/-- Two instructions, the first with an encoding suffix, the second behind its inline label. -/
def sampleListing : Text :=
  "k:\n\tv_nop_e32 // 0: 7E\n4 <B>:\n\ts_branch B // 4: BF\n".toList

theorem regular_sampleListing : ∀ line ∈ Text.lines sampleListing, Regular line := by
  have hlines : Text.lines sampleListing = ["k:".toList, "\tv_nop_e32 // 0: 7E".toList,
      "4 <B>:".toList, "\ts_branch B // 4: BF".toList] := by decide +kernel
  have htab : ∀ c ∈ ['\t'], c = ' ' ∨ c = '\t' := List.all_iff_forall_prop.mp (by decide)
  have hlabel : label? "k:".toList = some ['k'] := by decide
  have hnop : IsMnemonic "v_nop_e32".toList := ⟨by decide, List.all_iff_forall_prop.mp (by decide),
    List.all_iff_forall_prop.mp (by decide), by decide, by decide⟩
  have hbranch : IsMnemonic "s_branch".toList := ⟨by decide,
    List.all_iff_forall_prop.mp (by decide), List.all_iff_forall_prop.mp (by decide), by decide,
    by decide⟩
  have hnop' : IsOperands ([] ++ ' ' :: (addressMark ++ " 0: 7E".toList)) :=
    .located ⟨by simp, by decide, by decide⟩ (by decide)
  have hbranch' : IsOperands (" B".toList ++ ' ' :: (addressMark ++ " 4: BF".toList)) :=
    .located ⟨by simp, by decide, by decide⟩ (by decide)
  have hinline : Regular (['4'] ++ ' ' :: '<' :: (['B'] ++ ['>', ':'])) :=
    .inlineLabel (by decide) (List.all_iff_forall_prop.mp (by decide)) (by decide)
      (List.all_iff_forall_prop.mp (by decide))
  rw [hlines]
  simp only [List.forall_mem_cons]
  exact ⟨.label hlabel (by decide), .instruction htab hnop hnop', hinline,
    .instruction htab hbranch hbranch', fun line h => absurd h List.not_mem_nil⟩

set_option maxRecDepth 8000 in
/-- The sample, reduced to both of its instructions and then to the first. -/
theorem apply_apply_sampleListing :
    (∃ once twice, apply 8 (Fragment.withHeader ['k'] sampleListing) = .ok once ∧
        apply 4 once = .ok twice ∧
        apply (min 4 8) (Fragment.withHeader ['k'] sampleListing) = .ok twice) ∧
      ∀ reduced, reduce (Fragment.withHeader ['k'] sampleListing) 8 = .ok (.reduced reduced) →
        ∀ size, 8 ≤ size → reduce reduced size = .ok .unchanged :=
  apply_apply (by decide) (by decide +kernel) regular_sampleListing ⟨_, rfl⟩ ⟨_, rfl⟩

end KernelIsa.Reduction
