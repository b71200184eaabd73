import KernelIsa.Proofs.Listing.LabelRetention

/-!
# Proofs/Listing/ReportedChanges — a reduction that reports a change makes one

No rewriting gives its line back: an inline label gets shorter (`plainLabel?_ne`), and the place of
the suffix is taken by a space (`withoutSuffix?_ne`).  As lines are only ever dropped besides, the
edited lines of a body are the body again only where every edit keeps its line
(`untouched_iff_edited_eq`).  So a reduced text differs in its lines, and a fragment is left alone
exactly if an address stops the reduction (`Blocked`) or nothing is to be done (`Finished`); that is
`reduce_reports`.
-/

namespace KernelIsa

theorem filterMap_eq_self {α : Type} {f : α → Option α} {l : List α} (h : l.filterMap f = l) :
    ∀ a ∈ l, f a = some a := by
  induction l with
  | nil => exact fun a ha => absurd ha List.not_mem_nil
  | cons a l ih =>
    cases hf : f a with
    | none =>
      have hlen := List.length_filterMap_le f l
      rw [← List.filterMap_cons_none hf, h, List.length_cons] at hlen
      exact absurd hlen (Nat.not_succ_le_self _)
    | some b =>
      rw [List.filterMap_cons_some hf] at h
      obtain ⟨rfl, hl⟩ := List.cons_eq_cons.mp h
      exact List.forall_mem_cons.mpr ⟨hf, ih hl⟩

theorem Word.eq_add_of_add {a b n : Nat} (h : Word.add a b = .ok n) : n = a + b := by
  rw [Word.add] at h
  split at h
  · exact (Except.ok.inj h).symm
  · cases h

namespace Line

variable {line line' name : Text}

/-! ## Rewritten lines -/

/-- **An inline label gets shorter.** -/
theorem plainLabel?_ne (h : plainLabel? line = some line') : line' ≠ line := by
  obtain ⟨before, label, after, hline, rfl⟩ := plainLabel?_eq_some h
  have htake : (line.takeWhile (· ≠ ' ')).length ≤ before.length := by
    rw [hline, List.append_assoc, List.cons_append, List.takeWhile_append]
    split
    · rw [List.takeWhile_cons_of_neg (by simp), List.append_nil]
    · exact (List.takeWhile_prefix _).length_le
  refine fun heq => Nat.lt_irrefl line.length ?_
  calc line.length = (line.takeWhile (· ≠ ' ') ++ ' ' :: label ++ [':']).length := by rw [heq]
    _ ≤ before.length + label.length + 2 := by
      simp only [List.length_append, List.length_cons, List.length_nil]
      omega
    _ < line.length := by
      rw [hline]
      simp only [List.length_append, List.length_cons, List.length_nil]
      omega

/-- **A space stands where the suffix stood.** -/
theorem withoutSuffix?_ne (h : withoutSuffix? line = some line') : line' ≠ line := by
  obtain ⟨indent, d, m, t, stem, rfl, -, -, hm, hstem, rfl⟩ := withoutSuffix?_eq_some h
  obtain ⟨suffix, hsuffix, hsplit⟩ := stem?_eq_some hstem
  rw [hsplit] at hm ⊢
  intro heq
  rw [List.append_assoc, List.append_assoc, List.append_assoc, List.append_cancel_left_eq,
    List.append_cancel_left_eq] at heq
  rcases List.mem_pair.mp hsuffix with rfl | rfl
  · cases (List.cons.inj heq).1
  · cases (List.cons.inj heq).1

/-- A label line has no other form. -/
theorem forms_of_label (h : label? line = some name) :
    plainLabel? line = none ∧ withoutSuffix? line = none := by
  have hspace : ' ' ∉ line := fun hspace => by
    rw [label?_eq_none_of_space hspace] at h
    cases h
  refine ⟨Option.eq_none_iff_forall_ne_some.mpr fun line' hplain => hspace ?_,
    Option.eq_none_iff_forall_ne_some.mpr fun line' hsuffix => hspace ?_⟩
  · obtain ⟨before, label, after, rfl, -⟩ := plainLabel?_eq_some hplain
    simp
  · obtain ⟨indent, d, m, t, stem, rfl, -⟩ := withoutSuffix?_eq_some hsuffix
    simp

end Line

namespace Reduction

open Line

variable {size : Nat} {origin : Option Nat} {fragment result line line' : Text}
  {named body kept rest : List Text} {o : Outcome}

/-! ## Edits -/

theorem forms_of_replace (h : edit named line = .replace line') :
    plainLabel? line = some line' ∨ withoutSuffix? line = some line' := by
  rw [edit] at h
  split at h
  · split at h <;> cases h
  · split at h
    · next hplain => exact .inl (Edit.replace.inj h ▸ hplain)
    · split at h
      · cases h
      · split at h
        · next hsuffix => exact .inr (Edit.replace.inj h ▸ hsuffix)
        · cases h

/-- **A line is left as it is only by the edit that keeps it.** -/
theorem edit_eq_keep_of_result? (h : (edit named line).result? line = some line) :
    edit named line = .keep := by
  cases hedit : edit named line with
  | keep => rfl
  | drop => rw [hedit] at h; cases h
  | replace line' =>
    rw [hedit] at h
    obtain rfl : line' = line := Option.some.inj h
    rcases forms_of_replace hedit with hplain | hsuffix
    · exact absurd rfl (plainLabel?_ne hplain)
    · exact absurd rfl (withoutSuffix?_ne hsuffix)

/-- A line is kept if its label is named and it has no other form. -/
theorem edit_eq_keep_iff : edit named line = .keep ↔
    (∀ name, label? line = some name → name ∈ named) ∧ plainLabel? line = none ∧
      (isComment line = false → withoutSuffix? line = none) := by
  cases hlabel : label? line with
  | some name =>
    obtain ⟨hplain, hsuffix⟩ := forms_of_label hlabel
    rw [edit_of_label hlabel]
    simp [hplain, hsuffix]
  | none =>
    rw [edit, hlabel]
    cases hplain : plainLabel? line with
    | some line' => simp
    | none =>
      cases hcomment : isComment line with
      | true => simp
      | false => cases hsuffix : withoutSuffix? line <;> simp

/-- **Keeping lines of a body leaves the body exactly if nothing is dropped or rewritten.** -/
theorem untouched_iff_edited_eq (hpre : kept <+: body) :
    Untouched body kept ↔ edited (targets kept) kept = body := by
  refine ⟨Untouched.edited_eq, fun h => ?_⟩
  have hlen : body.length ≤ kept.length := by
    rw [← h]
    exact List.length_filterMap_le _ _
  obtain rfl : kept = body := hpre.eq_of_length_le hlen
  exact ⟨rfl, fun line hline => edit_eq_keep_of_result? (filterMap_eq_self h line hline)⟩

/-! ## The end of the code -/

/-- The address of the first instruction among some lines. -/
def firstAddress? (lines : List Text) : Option Nat :=
  lines.findSome? fun line => match place line with
    | .span address _ => some address
    | _ => none

/-- An instruction among some lines reaches `size` bytes, measured from the origin or, where there
is none, from the first instruction. -/
def Attains (size : Nat) (origin : Option Nat) (lines : List Text) : Prop :=
  ∃ start, origin.or (firstAddress? lines) = some start ∧ ∃ line ∈ lines, ∃ address width,
    place line = .span address width ∧ size ≤ address - start + width

theorem not_attains_nil : ¬ Attains size origin [] := by
  rintro ⟨_, -, line, hline, -⟩
  exact List.not_mem_nil hline

theorem attains_cons_of_no_span (h : ∀ address width, place line ≠ .span address width) :
    Attains size origin (line :: rest) ↔ Attains size origin rest := by
  have hfirst : firstAddress? (line :: rest) = firstAddress? rest := by
    rw [firstAddress?, List.findSome?_cons]
    cases hplace : place line with
    | span address width => exact absurd hplace (h address width)
    | _ => rfl
  simp [Attains, hfirst, h]

theorem attains_cons_of_span {address width : Nat} (h : place line = .span address width) :
    Attains size origin (line :: rest) ↔ size ≤ address - origin.getD address + width ∨
      Attains size (some (origin.getD address)) rest := by
  have hfirst : firstAddress? (line :: rest) = some address := by
    rw [firstAddress?, List.findSome?_cons, h]
  have hstart : origin.or (some address) = some (origin.getD address) := by cases origin <;> rfl
  simp [Attains, hfirst, hstart, h]

/-- **Where the covered lines end in front of others, they attain the size.** -/
theorem Covers.attains (h : Covers size origin body kept) (hne : kept ≠ body) :
    Attains size origin kept := by
  induction h with
  | nil => exact absurd rfl hne
  | absent hplace _ ih =>
    exact (attains_cons_of_no_span (by simp [hplace])).mpr (ih fun h => hne (h ▸ rfl))
  | last hplace hadd hreached =>
    exact (attains_cons_of_span hplace).mpr (.inl (Word.eq_add_of_add hadd ▸ hreached))
  | more hplace _ _ _ ih =>
    exact (attains_cons_of_span hplace).mpr (.inr (ih fun h => hne (h ▸ rfl)))

/-- Lines in front of others that attain the size are not empty. -/
theorem Attains.exists_cons {front : List Text} (h : Attains size origin front)
    (hfront : front <+: line :: rest) : ∃ front', front = line :: front' ∧ front' <+: rest := by
  cases front with
  | nil => exact absurd h not_attains_nil
  | cons first front =>
    obtain ⟨rfl, hrest⟩ := List.cons_prefix_cons.mp hfront
    exact ⟨front, rfl, hrest⟩

/-- **Lines that attain the size hold all the covered ones.** -/
theorem Covers.isPrefix_of_attains {front : List Text} (h : Covers size origin body kept)
    (hfront : front <+: body) (hattains : Attains size origin front) : kept <+: front := by
  induction h generalizing front with
  | nil => exact List.nil_prefix
  | absent hplace _ ih =>
    obtain ⟨front, rfl, hrest⟩ := hattains.exists_cons hfront
    have hattains := (attains_cons_of_no_span (by simp [hplace])).mp hattains
    exact List.cons_prefix_cons.mpr ⟨rfl, ih hrest hattains⟩
  | last =>
    obtain ⟨front, rfl, -⟩ := hattains.exists_cons hfront
    exact List.cons_prefix_cons.mpr ⟨rfl, List.nil_prefix⟩
  | more hplace hadd hreached _ ih =>
    obtain ⟨front, rfl, hrest⟩ := hattains.exists_cons hfront
    rw [Word.eq_add_of_add hadd] at hreached
    have hattains := ((attains_cons_of_span hplace).mp hattains).resolve_left
      (Nat.not_le.mpr hreached)
    exact List.cons_prefix_cons.mpr ⟨rfl, ih hrest hattains⟩

/-! ## Addresses that stop a reduction -/

/-- The address on a line cannot be read, and the lines in front do not attain the size. -/
def Blocked (size : Nat) (origin : Option Nat) (body : List Text) : Prop :=
  ∃ before line after, body = before ++ line :: after ∧ place line = .unreadable ∧
    ¬ Attains size origin before

theorem blocked_cons_iff : Blocked size origin (line :: rest) ↔ place line = .unreadable ∨
    ∃ before stop after, rest = before ++ stop :: after ∧ place stop = .unreadable ∧
      ¬ Attains size origin (line :: before) := by
  constructor
  · rintro ⟨before, stop, after, hbody, hstop, hattains⟩
    cases before with
    | nil => exact .inl ((List.cons.inj hbody).1 ▸ hstop)
    | cons first before =>
      obtain ⟨rfl, hrest⟩ := List.cons.inj hbody
      exact .inr ⟨before, stop, after, hrest, hstop, hattains⟩
  · rintro (hline | ⟨before, stop, after, rfl, hstop, hattains⟩)
    · exact ⟨[], line, rest, rfl, hline, not_attains_nil⟩
    · exact ⟨line :: before, stop, after, rfl, hstop, hattains⟩

theorem blocked_cons_of_absent (h : place line = .absent) :
    Blocked size origin (line :: rest) ↔ Blocked size origin rest := by
  have hattains (before : List Text) :
      Attains size origin (line :: before) ↔ Attains size origin before :=
    attains_cons_of_no_span (by simp [h])
  rw [blocked_cons_iff, h]
  simp [Blocked, hattains]

theorem blocked_cons_of_span {address width : Nat} (h : place line = .span address width) :
    Blocked size origin (line :: rest) ↔ address - origin.getD address + width < size ∧
      Blocked size (some (origin.getD address)) rest := by
  rw [blocked_cons_iff]
  simp only [attains_cons_of_span h, not_or, Nat.not_le]
  constructor
  · rintro (hline | ⟨before, stop, after, rfl, hstop, hline, hattains⟩)
    · rw [h] at hline
      cases hline
    · exact ⟨hline, before, stop, after, rfl, hstop, hattains⟩
  · rintro ⟨hline, before, stop, after, rfl, hstop, hattains⟩
    exact .inr ⟨before, stop, after, rfl, hstop, hline, hattains⟩

/-- **An address that cannot be read stops the coverage**, unless the size is attained before. -/
theorem blocked_of_coverFrom (h : coverFrom size origin body = .ok none) :
    Blocked size origin body := by
  induction body generalizing origin with
  | nil => cases h
  | cons line body ih =>
    cases hplace : place line with
    | absent =>
      rw [coverFrom_of_absent hplace, consKept_eq_none_iff] at h
      exact (blocked_cons_of_absent hplace).mpr (ih h)
    | unreadable => exact blocked_cons_iff.mpr (.inl hplace)
    | span address width =>
      rw [coverFrom_of_span hplace, bind_eq_ok_iff] at h
      obtain ⟨reached, hadd, h⟩ := h
      split at h
      · cases h
      · next hreached =>
        rw [Word.eq_add_of_add hadd] at hreached
        exact (blocked_cons_of_span hplace).mpr
          ⟨Nat.not_le.mp hreached, ih (consKept_eq_none_iff.mp h)⟩

theorem Covers.not_blocked (h : Covers size origin body kept) : ¬ Blocked size origin body := by
  induction h with
  | nil => rintro ⟨_, _, _, hbody, -⟩; simp at hbody
  | absent hplace _ ih => rwa [blocked_cons_of_absent hplace]
  | last hplace hadd hreached =>
    rw [blocked_cons_of_span hplace, ← Word.eq_add_of_add hadd]
    exact fun h => Nat.not_lt.mpr hreached h.1
  | more hplace _ _ _ ih =>
    rw [blocked_cons_of_span hplace]
    exact fun h => ih h.2

/-! ## What a reduction reports -/

/-- Nothing is to be done on a body: no line follows the one that attains the size, a jump names
every label, and no line has another form. -/
structure Finished (size : Nat) (body : List Text) : Prop where
  whole : ∀ front rest, body = front ++ rest → Attains size none front → rest = []
  labels : ∀ line ∈ body, ∀ name, label? line = some name →
    ∃ jump ∈ body, branchTarget? jump = some name
  inline : ∀ line ∈ body, plainLabel? line = none
  suffix : ∀ line ∈ body, isComment line = false → withoutSuffix? line = none

theorem mem_targets_iff {name : Text} :
    name ∈ targets body ↔ ∃ jump ∈ body, branchTarget? jump = some name := List.mem_filterMap

theorem Covers.finished_of_untouched (h : Covers size none body kept)
    (huntouched : Untouched body kept) : Finished size body := by
  obtain ⟨rfl, hkeep⟩ := huntouched
  simp only [edit_eq_keep_iff] at hkeep
  refine ⟨fun front rest hbody hattains => ?_, fun line hline name hname => ?_,
    fun line hline => (hkeep line hline).2.1, fun line hline => (hkeep line hline).2.2⟩
  · have hall := (h.isPrefix_of_attains ⟨rest, hbody.symm⟩ hattains).length_le
    have hlen := congrArg List.length hbody
    rw [List.length_append] at hlen
    exact List.length_eq_zero_iff.mp (by omega)
  · exact mem_targets_iff.mp ((hkeep line hline).1 name hname)

theorem Covers.untouched_of_finished (h : Covers size none body kept)
    (hfinished : Finished size body) : Untouched body kept := by
  have hkept : kept = body := by
    by_contra hne
    obtain ⟨rest, hrest⟩ := h.isPrefix
    have hnil := hfinished.whole kept rest hrest.symm (h.attains hne)
    rw [hnil, List.append_nil] at hrest
    exact hne hrest
  subst hkept
  refine ⟨rfl, fun line hline => edit_eq_keep_iff.mpr ⟨fun name hname => ?_, ?_⟩⟩
  · exact mem_targets_iff.mpr (hfinished.labels line hline name hname)
  · exact ⟨hfinished.inline line hline, hfinished.suffix line hline⟩

/-- **A fragment is left alone exactly if it is blocked or finished.** -/
theorem reduced?_eq_none_iff (h : reduce fragment size = .ok o) : o.reduced? = none ↔
    Blocked size none (bodyOf fragment) ∨ Finished size (bodyOf fragment) := by
  cases hcover : coverFrom size none (bodyOf fragment) with
  | error e => cases h.symm.trans (reduce_of_coverFrom_error hcover)
  | ok covered =>
    cases covered with
    | none =>
      obtain ⟨line, hline⟩ := reduce_of_coverFrom_none hcover
      obtain rfl := Except.ok.inj (h.symm.trans hline)
      exact iff_of_true rfl (.inl (blocked_of_coverFrom hcover))
    | some kept =>
      have hcovers := covers_of_coverFrom hcover
      obtain rfl := Except.ok.inj (h.symm.trans (reduce_of_covers hcovers))
      have huntouched : Untouched (bodyOf fragment) kept ↔ Finished size (bodyOf fragment) :=
        ⟨hcovers.finished_of_untouched, hcovers.untouched_of_finished⟩
      rw [or_iff_right hcovers.not_blocked, ← huntouched, outcome]
      split
      · next huntouched => exact iff_of_true rfl huntouched
      · next htouched => exact iff_of_false (Option.some_ne_none _) htouched

/-- A reduced text differs in its lines. -/
theorem lines_ne_of_reduced (hcr : '\r' ∉ fragment)
    (h : reduce fragment size = .ok (.reduced result)) :
    Text.lines result ≠ Text.lines fragment := by
  obtain ⟨kept, hcover, htouched, -⟩ := reduce_eq_reduced_iff.mp h
  obtain ⟨-, hbody⟩ := lines_apply hcr hcover (cover_of_reduced h).1
  intro heq
  refine htouched ((untouched_iff_edited_eq hcover.isPrefix).mpr ?_)
  rw [← hbody, bodyOf, heq, bodyOf]

/-- **A reduction reports a change exactly where it makes one.**  A reduced text has other lines
than the fragment; and no text is given exactly if an address that cannot be read stops the
reduction before the code size is attained, or if nothing is to be done. -/
theorem reduce_reports (hcr : '\r' ∉ fragment) (h : reduce fragment size = .ok o) :
    (∀ result, o.reduced? = some result → Text.lines result ≠ Text.lines fragment) ∧
    (o.reduced? = none ↔
      Blocked size none (bodyOf fragment) ∨ Finished size (bodyOf fragment)) := by
  refine ⟨fun result hresult => ?_, reduced?_eq_none_iff h⟩
  cases o with
  | reduced text =>
    obtain rfl := Option.some.inj hresult
    exact lines_ne_of_reduced hcr h
  | _ => cases hresult

/-- The sample with jumps is changed, and what is left of it is finished. -/
theorem reduce_reports_sampleJumps : '\r' ∉ sampleJumps ∧ '\r' ∉ sampleLeft ∧
    reduce sampleJumps 8 = .ok (.reduced sampleLeft) ∧ reduce sampleLeft 8 = .ok .unchanged ∧
    Text.lines sampleLeft ≠ Text.lines sampleJumps ∧ Finished 8 (bodyOf sampleLeft) := by
  have hcr : '\r' ∉ sampleJumps := by decide +kernel
  have hcr' : '\r' ∉ sampleLeft := by decide +kernel
  have hreduced : reduce sampleJumps 8 = .ok (.reduced sampleLeft) := by decide +kernel
  have hunchanged : reduce sampleLeft 8 = .ok .unchanged := by decide +kernel
  have hcovers : Covers 8 none (bodyOf sampleLeft) (bodyOf sampleLeft) :=
    covers_of_coverFrom (by decide +kernel)
  refine ⟨hcr, hcr', hreduced, hunchanged, (reduce_reports hcr hreduced).1 _ rfl, ?_⟩
  exact ((reduce_reports hcr' hunchanged).2.mp rfl).resolve_left hcovers.not_blocked

end Reduction

end KernelIsa
