import KernelIsa.Listing.Line
import KernelIsa.Proofs.Text.Lines

/-!
# Proofs/Listing/Headers — the header of a fragment and the body behind it

The body of a fragment is told in two ways: as the text behind the second line feed
(`Fragment.body`), and as the lines behind the first two (`bodyOf`).  The lines of the text are
those lines, whatever the text is (`lines_body`).  A header is two lines with their ends
(`Fragment.withHeader_eq`), so that what was put behind it is got back either way
(`Fragment.body_withHeader`, `bodyOf_withHeader`).
-/

namespace KernelIsa

namespace Fragment

variable {kernel body first second t : Text}

/-- The lines of the header that names a kernel. -/
def headings (kernel : Text) : List Text :=
  ["; ".toList ++ kernel, "; Disassembly for ".toList ++ kernel]

/-- A fragment is the lines of its header, written, and its body. -/
theorem withHeader_eq (kernel body : Text) :
    withHeader kernel body = Text.ofLines (headings kernel) ++ body := by
  simp [withHeader, headings]

theorem newline_not_mem_headings (h : '\n' ∉ kernel) : ∀ l ∈ headings kernel, '\n' ∉ l := by
  simp [headings, h]

/-- Behind two written lines stands the body. -/
theorem body_ofLines_append (hfirst : '\n' ∉ first) (hsecond : '\n' ∉ second) (t : Text) :
    Fragment.body (Text.ofLines [first, second] ++ t) = t := by
  have hlines : Text.ofLines [first, second] ++ t
      = first ++ '\n' :: (second ++ '\n' :: t) := by simp
  rw [hlines, Fragment.body, Text.afterLineFeed?_append hfirst, Option.bind_some,
    Text.afterLineFeed?_append hsecond]
  rfl

/-- **A body is got back from behind its header.** -/
theorem body_withHeader (h : '\n' ∉ kernel) : Fragment.body (withHeader kernel body) = body := by
  have hline := newline_not_mem_headings h
  rw [withHeader_eq]
  exact body_ofLines_append (hline _ (by simp [headings])) (hline _ (by simp [headings])) body

/-- The header of a kernel is read back, unless a carriage return ends the name. -/
theorem lines_withHeader (h : '\n' ∉ kernel) (hr : kernel.getLast? ≠ some '\r') (body : Text) :
    Text.lines (withHeader kernel body) = headings kernel ++ Text.lines body := by
  have hline := newline_not_mem_headings h
  have hlast (lead : Text) (hlead : '\r' ∉ lead) : (lead ++ kernel).getLast? ≠ some '\r' := by
    rw [List.getLast?_append, ne_eq, Option.or_eq_some_iff]
    rintro (hlast | ⟨-, hlast⟩)
    · exact hr hlast
    · exact hlead (List.mem_of_getLast? hlast)
  have hread : ∀ l ∈ headings kernel, '\n' ∉ l ∧ l.getLast? ≠ some '\r' := by
    intro l hl
    refine ⟨hline l hl, ?_⟩
    rcases List.mem_pair.mp hl with rfl | rfl
    · exact hlast _ (by decide)
    · exact hlast _ (by decide)
  rw [withHeader_eq, Text.lines_ofLines_append hline, Text.lines_ofLines hread]

end Fragment

namespace Reduction

variable {fragment line : Text} {body : List Text}

/-- The lines of a fragment's header. -/
def headerOf (fragment : Text) : List Text := (Text.lines fragment).take Fragment.headerLines

/-- The lines of a fragment's body. -/
def bodyOf (fragment : Text) : List Text := (Text.lines fragment).drop Fragment.headerLines

theorem mem_lines_of_mem_bodyOf (h : line ∈ bodyOf fragment) : line ∈ Text.lines fragment :=
  List.mem_of_mem_drop h

theorem length_headerOf (h : bodyOf fragment ≠ []) :
    (headerOf fragment).length = Fragment.headerLines := by
  rw [bodyOf, ne_eq, List.drop_eq_nil_iff] at h
  rw [headerOf, List.length_take]
  omega

/-- A header that is followed by anything has two lines. -/
theorem exists_headerOf (h : bodyOf fragment ≠ []) :
    ∃ first second, headerOf fragment = [first, second] ∧ '\n' ∉ first ∧ '\n' ∉ second := by
  obtain ⟨first, second, hheader⟩ := List.length_eq_two.mp (length_headerOf h)
  have hline : ∀ line ∈ headerOf fragment, '\n' ∉ line := fun line h =>
    Text.newline_not_mem_of_mem_lines (List.mem_of_mem_take h)
  rw [hheader] at hline
  exact ⟨first, second, hheader, hline _ (by simp), hline _ (by simp)⟩

/-- The body of a fragment with a header is what was put behind the header. -/
theorem bodyOf_withHeader {name text : Text} (hname : '\n' ∉ name)
    (hcr : '\r' ∉ Fragment.withHeader name text) :
    bodyOf (Fragment.withHeader name text) = Text.lines text := by
  have hlast : name.getLast? ≠ some '\r' := fun h =>
    hcr (by simp [Fragment.withHeader, List.mem_of_getLast? h])
  rw [bodyOf, Fragment.lines_withHeader hname hlast]
  rfl

/-- **The lines of the text behind the header are the lines behind the header's.** -/
theorem lines_body (fragment : Text) : Text.lines (Fragment.body fragment) = bodyOf fragment := by
  have hshort : ∀ t : Text, (Text.lines t).length ≤ Fragment.headerLines → bodyOf t = [] :=
    fun t => List.drop_eq_nil_of_le
  by_cases hfeed : '\n' ∈ fragment
  · obtain ⟨first, rest, rfl, hfirst⟩ := List.eq_append_cons_of_mem hfeed
    obtain ⟨head, hhead⟩ := Text.exists_lines_append hfirst
    rw [Fragment.body, Text.afterLineFeed?_append hfirst, Option.bind_some]
    by_cases hfeed' : '\n' ∈ rest
    · obtain ⟨second, body, rfl, hsecond⟩ := List.eq_append_cons_of_mem hfeed'
      obtain ⟨next, hnext⟩ := Text.exists_lines_append hsecond
      rw [Text.afterLineFeed?_append hsecond, bodyOf, hhead, hnext]
      rfl
    · have hrest := Text.length_lines_le_one hfeed'
      rw [Text.afterLineFeed?_eq_none hfeed',
        hshort _ (by rw [hhead]; exact Nat.succ_le_succ hrest)]
      rfl
  · have hlines := Text.length_lines_le_one hfeed
    rw [Fragment.body, Text.afterLineFeed?_eq_none hfeed, hshort _ (Nat.le_succ_of_le hlines)]
    rfl

/-- Behind two lines, whatever they are, a body starts. -/
theorem bodyOf_ofLines_cons {first second : Text} (hfirst : '\n' ∉ first) (hsecond : '\n' ∉ second)
    (body : List Text) :
    bodyOf (Text.ofLines (first :: second :: body)) = Text.lines (Text.ofLines body) := by
  have hlines : Text.ofLines (first :: second :: body)
      = Text.ofLines [first, second] ++ Text.ofLines body := Text.ofLines_append [first, second] body
  rw [← lines_body, hlines, Fragment.body_ofLines_append hfirst hsecond]

/-- Whatever the two lines of a header are, the body behind them is read back. -/
theorem bodyOf_ofLines {first second : Text} (hfirst : '\n' ∉ first) (hsecond : '\n' ∉ second)
    (hbody : ∀ line ∈ body, '\n' ∉ line ∧ line.getLast? ≠ some '\r') :
    bodyOf (Text.ofLines (first :: second :: body)) = body := by
  rw [bodyOf_ofLines_cons hfirst hsecond, Text.lines_ofLines hbody]

end Reduction

end KernelIsa
