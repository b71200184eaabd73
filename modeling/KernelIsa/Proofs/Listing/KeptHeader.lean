import KernelIsa.Proofs.Listing.ReducedText

/-!
# Proofs/Listing/KeptHeader — the header of a fragment under reduction

A reduction passes over two lines, and the readers of its text pass over two line feeds.  Both come
to the same body (`lines_body`), so a reduction is one of the header's lines and of the lines of the
body, whatever the fragment is (`reduce_eq_body`).  A reduced text is the two lines of the header,
with plain line ends, and a body (`body_of_reduced`); a header that names a kernel stays what it is
(`withHeader_of_reduced`).
-/

namespace KernelIsa.Reduction

variable {size : Nat} {fragment result : Text}

/-- **A reduction works on the text behind the header.** -/
theorem reduce_eq_body (fragment : Text) (size : Nat) : reduce fragment size
    = (extent size (Text.lines (Fragment.body fragment))).map
        (Extent.outcome (headerOf fragment) (Text.lines (Fragment.body fragment))) := by
  rw [lines_body, reduce_eq]

/-- **A reduced text is the header and a body.** -/
theorem body_of_reduced (h : reduce fragment size = .ok (.reduced result)) :
    ∃ first second, headerOf fragment = [first, second] ∧
      result = Text.ofLines [first, second] ++ Fragment.body result := by
  obtain ⟨kept, hcover, htouched, rfl⟩ := reduce_eq_reduced_iff.mp h
  obtain ⟨first, second, hheader, hfirst, hsecond⟩ :=
    exists_headerOf (bodyOf_ne_nil_of_touched hcover.isPrefix htouched)
  refine ⟨first, second, hheader, ?_⟩
  rw [hheader, Text.ofLines_append, Fragment.body_ofLines_append hfirst hsecond]

/-- The header of a kernel is kept, unless a carriage return ends the name. -/
theorem withHeader_of_reduced {name text : Text} (hname : '\n' ∉ name)
    (hr : name.getLast? ≠ some '\r')
    (h : reduce (Fragment.withHeader name text) size = .ok (.reduced result)) :
    result = Fragment.withHeader name (Fragment.body result) := by
  obtain ⟨first, second, hheader, hresult⟩ := body_of_reduced h
  have hlines : headerOf (Fragment.withHeader name text) = Fragment.headings name := by
    rw [headerOf, Fragment.lines_withHeader hname hr]
    rfl
  rw [Fragment.withHeader_eq, ← hlines, hheader]
  exact hresult

/-- **The header is passed over by its lines as it is by its line feeds, and it is kept.**  The
lines of the body are those behind the first two, and a reduction works on them.  A reduced text
starts with the two lines of the header, each with a line feed behind it, and a header that names a
kernel is kept as it is. -/
theorem reduce_keepsHeader (fragment : Text) (size : Nat) :
    Text.lines (Fragment.body fragment) = (Text.lines fragment).drop Fragment.headerLines ∧
    reduce fragment size = (extent size (Text.lines (Fragment.body fragment))).map
      (Extent.outcome ((Text.lines fragment).take Fragment.headerLines)
        (Text.lines (Fragment.body fragment))) ∧
    ∀ result, reduce fragment size = .ok (.reduced result) →
      (∃ first second, (Text.lines fragment).take Fragment.headerLines = [first, second] ∧
        result = Text.ofLines [first, second] ++ Fragment.body result) ∧
      ∀ name text, fragment = Fragment.withHeader name text → '\n' ∉ name →
        name.getLast? ≠ some '\r' → result = Fragment.withHeader name (Fragment.body result) := by
  refine ⟨lines_body fragment, reduce_eq_body fragment size, fun result h =>
    ⟨body_of_reduced h, ?_⟩⟩
  rintro name text rfl hname hr
  exact withHeader_of_reduced hname hr h

/-- A name with a carriage return in it. -/
def returnedName : Text := "k\rk".toList

/-- A body with a label, a blank line and carriage returns, whose last line has no line feed. -/
def returnedBody : Text := "A:\r\n\n\ts_nop 0\r".toList

/-- The body without its label. -/
def returnedLeft : Text := "\n\ts_nop 0\r\n".toList

/-- The sample with carriage returns keeps its header. -/
theorem reduce_keepsHeader_carriageReturns : '\n' ∉ returnedName ∧
    returnedName.getLast? ≠ some '\r' ∧
    reduce (Fragment.withHeader returnedName returnedBody) 4
      = .ok (.reduced (Fragment.withHeader returnedName returnedLeft)) ∧
    (∃ first second, (Text.lines (Fragment.withHeader returnedName returnedBody)).take
        Fragment.headerLines = [first, second] ∧
      Fragment.withHeader returnedName returnedLeft = Text.ofLines [first, second]
        ++ Fragment.body (Fragment.withHeader returnedName returnedLeft)) ∧
    Fragment.withHeader returnedName returnedLeft = Fragment.withHeader returnedName
      (Fragment.body (Fragment.withHeader returnedName returnedLeft)) := by
  have hname : '\n' ∉ returnedName := by decide
  have hr : returnedName.getLast? ≠ some '\r' := by decide
  have hreduce : reduce (Fragment.withHeader returnedName returnedBody) 4
      = .ok (.reduced (Fragment.withHeader returnedName returnedLeft)) := by decide +kernel
  obtain ⟨-, -, hkeeps⟩ := reduce_keepsHeader (Fragment.withHeader returnedName returnedBody) 4
  obtain ⟨hlines, hheader⟩ := hkeeps _ hreduce
  exact ⟨hname, hr, hreduce, hlines, hheader _ _ rfl hname hr⟩

/-- Carriage returns that end the lines of a header are not kept. -/
example : reduce "; k\r\n; k\r\nA:\r\n".toList 4 = .ok (.reduced "; k\n; k\n".toList) := by
  decide +kernel

end KernelIsa.Reduction
