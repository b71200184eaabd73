import KernelIsa.Proofs.Listing.Coverage
import KernelIsa.Proofs.Listing.Headers
import KernelIsa.Proofs.Listing.LineForms

/-!
# Proofs/Listing/ReducedText — the text that a reduction leaves

`reduce` is determined by the covered lines of the body: the edits that the targets among them ask
for are made on them (`edited`), and the fragment stays as it is exactly where that changes nothing
(`reduce_of_covers`); `reduce_eq_reduced_iff` says which text is left otherwise.  The lines of the
text left over are the header and the edited lines (`lines_apply`), so a second reduction works on
just those.
-/

namespace KernelIsa.Reduction

variable {size : Nat} {fragment result line line' : Text} {named kept body : List Text} {c : Char}

/-! ## Edits -/

/-- The lines that are left of some lines when `named` are the labels that jumps name. -/
def edited (named lines : List Text) : List Text :=
  lines.filterMap fun line => (edit named line).result? line

theorem edited_cons_none (h : (edit named line).result? line = none) (lines : List Text) :
    edited named (line :: lines) = edited named lines :=
  List.filterMap_cons_none h

theorem edited_cons_some (h : (edit named line).result? line = some line') (lines : List Text) :
    edited named (line :: lines) = line' :: edited named lines :=
  List.filterMap_cons_some h

theorem edited_append (named front behind : List Text) :
    edited named (front ++ behind) = edited named front ++ edited named behind :=
  List.filterMap_append

theorem edited_eq_self (h : ∀ line ∈ body, edit named line = .keep) : edited named body = body := by
  induction body with
  | nil => rfl
  | cons line body ih =>
    obtain ⟨hline, hbody⟩ := List.forall_mem_cons.mp h
    rw [edited_cons_some (by rw [hline]; rfl), ih hbody]

/-- An edit brings no characters into a line but a space and a colon. -/
theorem mem_of_edit (h : (edit named line).result? line = some line') (hc : c ∈ line') :
    c ∈ line ∨ c = ' ' ∨ c = ':' := by
  rw [edit] at h
  split at h
  · split at h
    · obtain rfl := Option.some.inj h
      exact .inl hc
    · cases h
  · split at h
    · next hplain =>
      obtain rfl := Option.some.inj h
      exact Line.mem_of_plainLabel? hplain hc
    · split at h
      · obtain rfl := Option.some.inj h
        exact .inl hc
      · split at h
        · next hsuffix =>
          obtain rfl := Option.some.inj h
          exact (Line.mem_of_withoutSuffix? hsuffix hc).imp_right .inl
        · obtain rfl := Option.some.inj h
          exact .inl hc

theorem not_mem_of_mem_edited (hspace : c ≠ ' ') (hcolon : c ≠ ':') (h : ∀ line ∈ body, c ∉ line) :
    ∀ line ∈ edited named body, c ∉ line := by
  intro line' hline' hc
  obtain ⟨line, hline, hedit⟩ := List.mem_filterMap.mp hline'
  rcases mem_of_edit hedit hc with hc | hc | hc
  · exact h line hline hc
  · exact hspace hc
  · exact hcolon hc

/-! ## The outcome -/

/-- Whether keeping `kept` of a body changes nothing. -/
def Untouched (body kept : List Text) : Prop :=
  kept = body ∧ ∀ line ∈ kept, edit (targets kept) line = .keep

instance (body kept : List Text) : Decidable (Untouched body kept) :=
  inferInstanceAs (Decidable (_ ∧ _))

theorem trim_eq (header body : List Text) (count : Nat) :
    trim header body count = if Untouched body (body.take count) then .unchanged
      else .reduced
        (Text.ofLines (header ++ edited (targets (body.take count)) (body.take count))) := by
  have hlen : (body.take count).length < body.length ↔ body.take count ≠ body := by
    refine ⟨fun h heq => by rw [heq] at h; omega, fun h => ?_⟩
    refine Nat.lt_of_le_of_ne (List.take_prefix _ _).length_le fun heq => h ?_
    exact (List.take_prefix _ _).eq_of_length heq
  have hcond : (decide ((body.take count).length < body.length)
      || (body.take count).any fun line => edit (targets (body.take count)) line ≠ .keep) = true
        ↔ ¬ Untouched body (body.take count) := by
    rw [Bool.or_eq_true, decide_eq_true_eq, List.any_eq_true, hlen, Untouched, not_and_or]
    simp
  rw [trim]
  by_cases h : Untouched body (body.take count)
  · rw [if_pos h]
    exact if_neg (mt hcond.mp (not_not.mpr h))
  · rw [if_neg h]
    exact if_pos (hcond.mpr h)

theorem Untouched.edited_eq (h : Untouched body kept) : edited (targets kept) kept = body := by
  rw [edited_eq_self h.2, h.1]

/-- What a reduction gives when the code covers `kept`. -/
def outcome (fragment : Text) (kept : List Text) : Outcome :=
  if Untouched (bodyOf fragment) kept then .unchanged
  else .reduced (Text.ofLines (headerOf fragment ++ edited (targets kept) kept))

/-- There is nothing to change in an empty body. -/
theorem bodyOf_ne_nil_of_touched (hpre : kept <+: bodyOf fragment)
    (h : ¬ Untouched (bodyOf fragment) kept) : bodyOf fragment ≠ [] := by
  intro hnil
  have hkept : kept = [] := by simpa [hnil] using hpre
  exact h ⟨by rw [hkept, hnil], by simp [hkept]⟩

/-- The text that is left of written lines are the edited lines, written. -/
theorem getD_outcome (h : Text.ofLines (headerOf fragment ++ bodyOf fragment) = fragment) :
    (outcome fragment kept).reduced?.getD fragment
      = Text.ofLines (headerOf fragment ++ edited (targets kept) kept) := by
  rw [outcome]
  split
  · next huntouched => rw [huntouched.edited_eq, h]; rfl
  · rfl

/-- What a reduction makes of a header and a body, by the extent of the code. -/
def Extent.outcome (header body : List Text) : Extent → Outcome
  | .unreadable line => .unreadable line
  | .whole => trim header body body.length
  | .through count => trim header body count

theorem reduce_eq (fragment : Text) (size : Nat) : reduce fragment size
    = (extent size (bodyOf fragment)).map
        (Extent.outcome (headerOf fragment) (bodyOf fragment)) := by
  rw [reduce, bodyOf, headerOf]
  rcases extent size ((Text.lines fragment).drop Fragment.headerLines) with e | extent
  · rfl
  · cases extent <;> rfl

theorem outcome_of_cover {extent : Extent} (h : extent.cover (bodyOf fragment) = some kept) :
    extent.outcome (headerOf fragment) (bodyOf fragment) = outcome fragment kept := by
  cases extent with
  | unreadable line => cases h
  | whole =>
    obtain rfl := Option.some.inj h
    rw [Extent.outcome, trim_eq, List.take_length]
    rfl
  | through count =>
    obtain rfl := Option.some.inj h
    exact trim_eq _ _ _

/-- **The outcome is determined by the covered lines.** -/
theorem reduce_of_covers (hcover : Covers size none (bodyOf fragment) kept) :
    reduce fragment size = .ok (outcome fragment kept) := by
  have h := hcover.coverFrom_eq
  rw [← map_cover_extentFrom] at h
  rw [reduce_eq, extent]
  generalize extentFrom size none (bodyOf fragment) = answer at h ⊢
  cases answer with
  | error e => cases h
  | ok extent => exact congrArg Except.ok (outcome_of_cover (Except.ok.inj h))

theorem reduce_of_coverFrom_none (h : coverFrom size none (bodyOf fragment) = .ok none) :
    ∃ line, reduce fragment size = .ok (.unreadable line) := by
  rw [← map_cover_extentFrom] at h
  rw [reduce_eq, extent]
  generalize extentFrom size none (bodyOf fragment) = answer at h ⊢
  rcases answer with e | extent
  · cases h
  · cases extent with
    | unreadable line => exact ⟨line, rfl⟩
    | whole => cases h
    | through count => cases h

theorem reduce_of_coverFrom_error {e : Overflow}
    (h : coverFrom size none (bodyOf fragment) = .error e) : reduce fragment size = .error e := by
  rw [← map_cover_extentFrom] at h
  rw [reduce_eq, extent]
  generalize extentFrom size none (bodyOf fragment) = answer at h ⊢
  rcases answer with e' | extent
  · exact congrArg Except.error (Except.error.inj h)
  · cases h

/-- **What a reduced text is**: the header and the edited lines that the code covers, where these
are not the body as it was. -/
theorem reduce_eq_reduced_iff : reduce fragment size = .ok (.reduced result) ↔
    ∃ kept, Covers size none (bodyOf fragment) kept ∧ ¬ Untouched (bodyOf fragment) kept ∧
      result = Text.ofLines (headerOf fragment ++ edited (targets kept) kept) := by
  constructor
  · intro h
    cases hcover : coverFrom size none (bodyOf fragment) with
    | error e => cases h.symm.trans (reduce_of_coverFrom_error hcover)
    | ok covered =>
      cases covered with
      | none =>
        obtain ⟨line, hline⟩ := reduce_of_coverFrom_none hcover
        cases h.symm.trans hline
      | some kept =>
        have hcovers := covers_of_coverFrom hcover
        have houtcome := Except.ok.inj (h.symm.trans (reduce_of_covers hcovers))
        rw [outcome] at houtcome
        split at houtcome
        · cases houtcome
        · next htouched => exact ⟨kept, hcovers, htouched, Outcome.reduced.inj houtcome⟩
  · rintro ⟨kept, hcovers, htouched, rfl⟩
    rw [reduce_of_covers hcovers, outcome, if_neg htouched]

/-! ## The text left over -/

/-- The text that a reduction to `size` bytes leaves of a fragment: the reduced one, or the fragment
itself. -/
def apply (size : Nat) (fragment : Text) : Except Overflow Text :=
  (reduce fragment size).map fun o => o.reduced?.getD fragment

theorem apply_of_covers (h : Covers size none (bodyOf fragment) kept) :
    apply size fragment = .ok ((outcome fragment kept).reduced?.getD fragment) := by
  rw [apply, reduce_of_covers h]
  rfl

theorem apply_of_coverFrom_none (h : coverFrom size none (bodyOf fragment) = .ok none) :
    apply size fragment = .ok fragment := by
  obtain ⟨line, hline⟩ := reduce_of_coverFrom_none h
  rw [apply, hline]
  rfl

theorem apply_of_coverFrom_error {e : Overflow}
    (h : coverFrom size none (bodyOf fragment) = .error e) : apply size fragment = .error e := by
  rw [apply, reduce_of_coverFrom_error h]
  rfl

/-- The body of a reduced text has no carriage return if the fragment has none. -/
theorem lines_reduced (hcr : '\r' ∉ fragment) (hpre : kept <+: bodyOf fragment) :
    Text.lines (Text.ofLines (headerOf fragment ++ edited (targets kept) kept))
      = headerOf fragment ++ edited (targets kept) kept := by
  have hlines : ∀ line ∈ Text.lines fragment, '\n' ∉ line ∧ '\r' ∉ line := fun line hline =>
    ⟨Text.newline_not_mem_of_mem_lines hline,
      fun h => hcr ((Text.infix_of_mem_lines hline).subset h)⟩
  have hkept : ∀ line ∈ kept, '\n' ∉ line ∧ '\r' ∉ line := fun line hline =>
    hlines line (mem_lines_of_mem_bodyOf (hpre.subset hline))
  refine Text.lines_ofLines fun line hline => ?_
  have hline' : '\n' ∉ line ∧ '\r' ∉ line := by
    rcases List.mem_append.mp hline with h | h
    · exact hlines line (List.mem_of_mem_take h)
    · exact ⟨not_mem_of_mem_edited (by decide) (by decide) (fun l hl => (hkept l hl).1) line h,
        not_mem_of_mem_edited (by decide) (by decide) (fun l hl => (hkept l hl).2) line h⟩
  exact ⟨hline'.1, fun h => hline'.2 (List.mem_of_getLast? h)⟩

/-- **The lines of the text left over** are the header and the edited lines that the code covers. -/
theorem lines_apply (hcr : '\r' ∉ fragment)
    (hcover : Covers size none (bodyOf fragment) kept)
    (happly : apply size fragment = .ok result) :
    headerOf result = headerOf fragment ∧ bodyOf result = edited (targets kept) kept := by
  rw [apply_of_covers hcover] at happly
  obtain rfl := Except.ok.inj happly
  rw [outcome]
  split
  · next h => exact ⟨rfl, h.edited_eq.symm⟩
  · next h =>
    have hne := bodyOf_ne_nil_of_touched hcover.isPrefix h
    have hlines := lines_reduced hcr hcover.isPrefix
    have hlen := length_headerOf hne
    simp only [Outcome.reduced?, Option.getD_some]
    rw [headerOf, bodyOf, hlines, List.take_left' hlen, List.drop_left' hlen]
    exact ⟨rfl, rfl⟩

theorem newline_not_mem_edited (hpre : kept <+: bodyOf fragment) :
    ∀ line ∈ edited named kept, '\n' ∉ line :=
  not_mem_of_mem_edited (by decide) (by decide) fun _ hline =>
    Text.newline_not_mem_of_mem_lines (mem_lines_of_mem_bodyOf (hpre.subset hline))

/-- **An edited line is in the text left over**, unless a carriage return ends it. -/
theorem mem_bodyOf_apply (hcover : Covers size none (bodyOf fragment) kept)
    (happly : apply size fragment = .ok result) (hline : line ∈ edited (targets kept) kept)
    (hr : line.getLast? ≠ some '\r') : line ∈ bodyOf result := by
  rw [apply_of_covers hcover] at happly
  obtain rfl := Except.ok.inj happly
  rw [outcome]
  split
  · next h => rwa [h.edited_eq] at hline
  · next h =>
    obtain ⟨first, second, hheader, hfirst, hsecond⟩ :=
      exists_headerOf (bodyOf_ne_nil_of_touched hcover.isPrefix h)
    rw [hheader]
    change line ∈ bodyOf (Text.ofLines (first :: second :: edited (targets kept) kept))
    rw [bodyOf_ofLines_cons hfirst hsecond]
    exact Text.mem_lines_ofLines (newline_not_mem_edited hcover.isPrefix) hline hr

/-- **The body of the text left over** are the edited lines that the code covers, also where a line
of the header holds carriage returns. -/
theorem bodyOf_apply (hcr : ∀ line ∈ bodyOf fragment, '\r' ∉ line)
    (hcover : Covers size none (bodyOf fragment) kept)
    (happly : apply size fragment = .ok result) : bodyOf result = edited (targets kept) kept := by
  rw [apply_of_covers hcover] at happly
  obtain rfl := Except.ok.inj happly
  rw [outcome]
  split
  · next h => exact h.edited_eq.symm
  · next h =>
    obtain ⟨first, second, hheader, hfirst, hsecond⟩ :=
      exists_headerOf (bodyOf_ne_nil_of_touched hcover.isPrefix h)
    rw [hheader]
    refine bodyOf_ofLines hfirst hsecond fun line hmem =>
      ⟨newline_not_mem_edited hcover.isPrefix line hmem, fun h => ?_⟩
    exact not_mem_of_mem_edited (by decide) (by decide)
      (fun l hl => hcr l (hcover.isPrefix.subset hl)) line hmem (List.mem_of_getLast? h)

end KernelIsa.Reduction
