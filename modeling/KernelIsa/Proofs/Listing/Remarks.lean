import KernelIsa.Listing.Registers
import KernelIsa.Listing.Row
import KernelIsa.Proofs.Listing.ReducedText

/-!
# Proofs/Listing/Remarks — line-number remarks in a listing

A disassembler that knows line numbers puts remarks among the lines of a kernel: comment lines
`; name` and `; file:line`, with any text behind the semicolon and the space.  No reading of a line
sees anything in a remark — no place, no label, no jump, no row, no registers — and every edit
leaves a remark one (`isRemark_of_edit`).  So what is made of a fragment is decided by its `code`,
the lines that are no remarks (`code_apply`, `Row.table_congr`, `Registers.usage_congr`), and
remarks put into a fragment change nothing else (`remarks_inert`).
-/

namespace KernelIsa

open Reduction

/-! ## What a remark is -/

namespace Line

/-- A remark starts with a semicolon and a space. -/
def isRemark (line : Text) : Bool := Text.startsWith [';', ' '] line

variable {line line' : Text} {named : List Text}

theorem isRemark_iff : isRemark line = true ↔ ∃ text, line = ';' :: ' ' :: text := by
  rw [isRemark, Text.startsWith_iff]
  constructor
  · rintro ⟨text, rfl⟩
    exact ⟨text, rfl⟩
  · rintro ⟨text, rfl⟩
    exact ⟨text, rfl⟩

theorem isComment_of_isRemark (h : isRemark line = true) : isComment line = true := by
  obtain ⟨text, rfl⟩ := isRemark_iff.mp h
  rfl

theorem place_of_isRemark (h : isRemark line = true) : place line = .absent := by
  rw [place, isComment_of_isRemark h, if_pos rfl]

theorem label?_of_isRemark (h : isRemark line = true) : label? line = none := by
  obtain ⟨text, rfl⟩ := isRemark_iff.mp h
  have hspace : ' ' ∈ ';' :: ' ' :: text := List.mem_cons_of_mem _ List.mem_cons_self
  exact label?_eq_none_of_blank hspace (by decide)

/-- The semicolon is no mnemonic of a jump, whatever stands behind it. -/
theorem branchTarget?_of_isRemark (h : isRemark line = true) : branchTarget? line = none := by
  obtain ⟨text, rfl⟩ := isRemark_iff.mp h
  have hline : branchTarget? ([] ++ [';'] ++ ' ' :: text)
      = if isJump [';'] then operand? (' ' :: text) else none :=
    branchTarget?_append (by simp) (by simp) (List.forall_mem_singleton.mpr (by decide))
      (by decide)
  rwa [if_neg (by decide)] at hline

theorem isRemark_of_plainLabel? (h : plainLabel? line = some line') (hr : isRemark line = true) :
    isRemark line' = true := by
  obtain ⟨text, rfl⟩ := isRemark_iff.mp hr
  obtain ⟨before, label, after, -, rfl⟩ := plainLabel?_eq_some h
  exact isRemark_iff.mpr ⟨label ++ [':'], rfl⟩

/-- **An edit leaves a remark one.** -/
theorem isRemark_of_edit (h : (edit named line).result? line = some line')
    (hr : isRemark line = true) : isRemark line' = true := by
  rw [edit, label?_of_isRemark hr, isComment_of_isRemark hr] at h
  dsimp only at h
  split at h
  · next hplain =>
    obtain rfl := Option.some.inj h
    exact isRemark_of_plainLabel? hplain hr
  · obtain rfl := Option.some.inj h
    exact hr

/-- A remark stays a comment without the blanks at its ends. -/
theorem trim_of_isRemark (h : isRemark line = true) :
    (Text.trim line).isEmpty = false ∧ isComment (Text.trim line) = true := by
  obtain ⟨text, rfl⟩ := isRemark_iff.mp h
  rw [Text.trim_cons_of_not (by decide)]
  exact ⟨rfl, rfl⟩

end Line

theorem Row.ofLine?_of_isRemark {line : Text} (h : Line.isRemark line = true) :
    Row.ofLine? line = none := by
  obtain ⟨-, hcomment⟩ := Line.trim_of_isRemark h
  simp only [Row.ofLine?, hcomment, Bool.or_true, if_true]

theorem Registers.tokens?_of_isRemark {line : Text} (h : Line.isRemark line = true) :
    Registers.tokens? line = none := by
  obtain ⟨-, hcomment⟩ := Line.trim_of_isRemark h
  simp only [Registers.tokens?, hcomment, Bool.or_true, Bool.true_or, if_true]

/-! ## What is decided by the code -/

namespace Reduction

variable {size : Nat} {fragment fragment' : Text} {lines kept body annotated : List Text}

/-- The lines that are no remarks. -/
def code (lines : List Text) : List Text := lines.filter fun line => !Line.isRemark line

/-- What takes nothing from a remark takes it all from the code. -/
theorem filterMap_code {α : Type} {f : Text → Option α}
    (h : ∀ line, Line.isRemark line = true → f line = none) (lines : List Text) :
    (code lines).filterMap f = lines.filterMap f := by
  rw [code, List.filterMap_filter]
  refine List.filterMap_congr fun line _ => ?_
  split
  · rfl
  · next hremark => exact (h line (by simpa using hremark)).symm

theorem targets_code (lines : List Text) : targets (code lines) = targets lines :=
  filterMap_code (fun _ => Line.branchTarget?_of_isRemark) lines

/-- **The edited code** comes from the code alone. -/
theorem code_edited (named lines : List Text) :
    code (edited named (code lines)) = code (edited named lines) := by
  rw [code, edited, List.filter_filterMap, filterMap_code, code, edited, List.filter_filterMap]
  intro line hremark
  rw [Option.filter_eq_none_iff]
  intro line' hedit
  simpa using Line.isRemark_of_edit hedit hremark

/-- Coverage passes over remarks. -/
theorem coverFrom_code (origin : Option Nat) (body : List Text) :
    coverFrom size origin (code body) = (coverFrom size origin body).map (Option.map code) := by
  have hcode : code = List.filterMap (Option.guard fun line => !Line.isRemark line) :=
    List.filterMap_eq_filter.symm
  rw [hcode]
  refine coverFrom_filterMap (fun line _ hdrop => ?_) fun line _ line' hkeep => ?_
  · exact Line.place_of_isRemark (by simpa using Option.guard_eq_none_iff.mp hdrop)
  · rw [(Option.guard_eq_some_iff.mp hkeep).1]

/-- The code that a reduction leaves of a fragment with the given code. -/
def codeLeft (size : Nat) (lines : List Text) : Except Overflow (List Text) :=
  (coverFrom size none lines).map fun covered =>
    covered.elim lines fun kept => code (edited (targets kept) kept)

/-- **The code of the text left over is decided by the code of the fragment.** -/
theorem code_apply (hcr : ∀ line ∈ bodyOf fragment, '\r' ∉ line) :
    (apply size fragment).map (fun text => code (bodyOf text))
      = codeLeft size (code (bodyOf fragment)) := by
  rw [codeLeft, coverFrom_code]
  cases hcover : coverFrom size none (bodyOf fragment) with
  | error e =>
    rw [apply_of_coverFrom_error hcover]
    rfl
  | ok covered =>
    cases covered with
    | none =>
      rw [apply_of_coverFrom_none hcover]
      rfl
    | some kept =>
      have hcovers := coverFrom_eq_some_iff.mp hcover
      have happly := apply_of_covers hcovers
      rw [happly]
      refine congrArg Except.ok ?_
      dsimp only
      rw [bodyOf_apply hcr hcovers happly, Option.map_some, Option.elim_some, targets_code,
        code_edited]

end Reduction

theorem Row.table_congr {fragment fragment' : Text}
    (h : code (bodyOf fragment) = code (bodyOf fragment')) :
    Row.table fragment = Row.table fragment' := by
  have hrows : ∀ text, Row.ofFragment text = (code (bodyOf text)).filterMap Row.ofLine? := by
    intro text
    rw [filterMap_code fun _ => Row.ofLine?_of_isRemark, Row.ofFragment, lines_body]
  rw [Row.table, Row.table, hrows, hrows, h]

theorem Registers.usage_congr {fragment fragment' : Text}
    (h : code (bodyOf fragment) = code (bodyOf fragment')) :
    Registers.usage fragment = Registers.usage fragment' := by
  have husage : ∀ text, Registers.usage text
      = (code (bodyOf text)).foldlM Registers.Usage.noteLine Registers.Usage.none := by
    intro text
    rw [Registers.usage, lines_body, code, List.foldlM_filter]
    congr
    funext usage line
    split
    · rfl
    · next hremark =>
      rw [Registers.Usage.noteLine, Registers.tokens?_of_isRemark (by simpa using hremark)]
      rfl
  rw [husage, husage, h]

/-! ## Remarks put in -/

namespace Reduction

/-- `annotated` is `body` with remarks put in, any number of them at any place. -/
inductive Annotated : List Text → List Text → Prop
  | nil : Annotated [] []
  | line {body annotated : List Text} (line : Text) (h : Annotated body annotated) :
      Annotated (line :: body) (line :: annotated)
  | remark {body annotated : List Text} {remark : Text} (hremark : Line.isRemark remark = true)
      (h : Annotated body annotated) : Annotated body (remark :: annotated)

theorem Annotated.code_eq {body annotated : List Text} (h : Annotated body annotated) :
    code annotated = code body := by
  induction h with
  | nil => rfl
  | line line _ ih => simp only [code, List.filter_cons] at ih ⊢; rw [ih]
  | remark hremark _ ih => rwa [code, List.filter_cons_of_neg (by simpa using hremark), ← code]

theorem Annotated.sublist {body annotated : List Text} (h : Annotated body annotated) :
    body.Sublist annotated := by
  induction h with
  | nil => exact List.Sublist.slnil
  | line line _ ih => exact ih.cons_cons line
  | remark _ _ ih => exact ih.cons _

/-- **Remarks are inert.**  Put into the body of a fragment, in any number and at any place, they
change neither the other lines that a reduction leaves, nor the table, nor the usage: with them a
reduction fails where it does without them. -/
theorem remarks_inert {first second : Text} {body annotated : List Text} (hfirst : '\n' ∉ first)
    (hsecond : '\n' ∉ second) (hlines : ∀ line ∈ annotated, '\n' ∉ line ∧ '\r' ∉ line)
    (h : Annotated body annotated) (size : Nat) :
    (apply size (Text.ofLines (first :: second :: annotated))).map (fun text => code (bodyOf text))
        = (apply size (Text.ofLines (first :: second :: body))).map (fun text => code (bodyOf text))
      ∧ Row.table (Text.ofLines (first :: second :: annotated))
        = Row.table (Text.ofLines (first :: second :: body))
      ∧ Registers.usage (Text.ofLines (first :: second :: annotated))
        = Registers.usage (Text.ofLines (first :: second :: body)) := by
  have hread : ∀ lines : List Text, (∀ line ∈ lines, '\n' ∉ line ∧ '\r' ∉ line) →
      bodyOf (Text.ofLines (first :: second :: lines)) = lines := fun lines hl =>
    bodyOf_ofLines hfirst hsecond fun line hline =>
      ⟨(hl line hline).1, fun hlast => (hl line hline).2 (List.mem_of_getLast? hlast)⟩
  have hannotated := hread annotated hlines
  have hbody := hread body fun line hline => hlines line (h.sublist.subset hline)
  have hcode : code (bodyOf (Text.ofLines (first :: second :: annotated)))
      = code (bodyOf (Text.ofLines (first :: second :: body))) := by
    rw [hannotated, hbody, h.code_eq]
  refine ⟨?_, Row.table_congr hcode, Registers.usage_congr hcode⟩
  rw [code_apply, code_apply, hcode]
  · rw [hbody]
    exact fun line hline => (hlines line (h.sublist.subset hline)).2
  · rw [hannotated]
    exact fun line hline => (hlines line hline).2

/-- Two instructions with a label between them. -/
def sampleBody : List Text := ["\ts_nop // 0: BF".toList, "B:".toList, "\ts_nop // 4: BF".toList]

/-- The sample with remarks that look like a jump to the label, and like the label. -/
def sampleRemarks : List Text :=
  ["; s_branch B // 0: BF".toList, "\ts_nop // 0: BF".toList, "; B:".toList, "B:".toList,
    "\ts_nop // 4: BF".toList, "; a.hip:7".toList]

theorem annotated_sampleRemarks : Annotated sampleBody sampleRemarks :=
  .remark (by decide) (.line _ (.remark (by decide) (.line _ (.line _ (.remark (by decide) .nil)))))

/-- The remarks in the sample are inert. -/
theorem remarks_inert_sampleRemarks :
    (apply 4 (Text.ofLines ("; k".toList :: "; k".toList :: sampleRemarks))).map
          (fun text => code (bodyOf text))
        = (apply 4 (Text.ofLines ("; k".toList :: "; k".toList :: sampleBody))).map
          (fun text => code (bodyOf text))
      ∧ Row.table (Text.ofLines ("; k".toList :: "; k".toList :: sampleRemarks))
        = Row.table (Text.ofLines ("; k".toList :: "; k".toList :: sampleBody))
      ∧ Registers.usage (Text.ofLines ("; k".toList :: "; k".toList :: sampleRemarks))
        = Registers.usage (Text.ofLines ("; k".toList :: "; k".toList :: sampleBody)) :=
  remarks_inert (by decide) (by decide) (by decide) annotated_sampleRemarks 4

end Reduction

end KernelIsa
