import KernelIsa.Listing.Split
import KernelIsa.Proofs.Text.Joined
import KernelIsa.Proofs.Text.Marks

/-!
# Proofs/Listing/Chunks — the lines from one kernel's label to the next

`chunksFrom` reads the lines as `markersFrom` does and keeps the lines themselves: those in front of
the first kernel, and a `Chunk` for each kernel.  No line is lost (`chunksFrom_lines`), every chunk
opens with its label line (`opened_of_mem`), and the markers are the offsets of the chunks
(`markersFrom_eq_marks`).  Cutting at them gives the chunks back (`cut_marks`).
-/

namespace KernelIsa.Split

variable {kernels lines : List Text} {awaited : Awaited} {line name tail front : Text}
  {offset : Nat}

/-! ## One line -/

/-- The name on the line if a listed kernel starts there. -/
def opening? (kernels : List Text) : Awaited → Text → Option Text
  | .blank, _ => none
  | .label, line => (Text.dropEnding? [':'] line).filter kernels.contains

/-- What is awaited behind a line. -/
def Awaited.after : Awaited → Text → Awaited
  | .blank, line => if line.isEmpty then .label else .blank
  | .label, line => if (Text.dropEnding? [':'] line).isSome then .blank else .label

theorem opening?_eq_some (h : opening? kernels awaited line = some name) :
    line = name ++ [':'] ∧ name ∈ kernels ∧ awaited.after line = .blank := by
  cases awaited with
  | blank => cases h
  | label =>
    obtain ⟨hending, hlisted⟩ := Option.filter_eq_some_iff.mp h
    refine ⟨Text.dropEnding?_eq_some_iff.mp hending, List.contains_iff_mem.mp hlisted, ?_⟩
    rw [Awaited.after, hending]
    rfl

/-- **One line of the scan**: a marker if a listed kernel starts there, and the rest. -/
theorem markersFrom_cons (rest : List Text) : markersFrom kernels awaited offset (line :: rest) =
    ((opening? kernels awaited line).map fun name => ⟨offset, Text.byteLength name⟩).toList ++
      markersFrom kernels (awaited.after line) (offset + Text.byteLength line + 1) rest := by
  rw [markersFrom.eq_def]
  cases awaited with
  | blank => rfl
  | label =>
    dsimp only
    rw [opening?, Awaited.after]
    cases Text.dropEnding? [':'] line with
    | none => rfl
    | some name =>
      dsimp only [Option.filter]
      cases kernels.contains name <;> rfl

/-! ## Chunks -/

/-- The lines from the label line of a kernel up to the next kernel. -/
structure Chunk where
  name : Text
  lines : List Text

/-- The text of a chunk. -/
def Chunk.listing (chunk : Chunk) : Text := joined '\n' chunk.lines

/-- A chunk opens with the label line of a listed kernel, and the label line is ended. -/
structure Chunk.Opened (kernels : List Text) (chunk : Chunk) : Prop where
  listed : chunk.name ∈ kernels
  label : ∃ line rest, chunk.lines = (chunk.name ++ [':']) :: line :: rest

/-- The lines in front of the first kernel, and the chunks; `tail` is the last line, which is not
ended. -/
def chunksFrom (kernels : List Text) (tail : Text) : Awaited → List Text → List Text × List Chunk
  | _, [] => ([tail], [])
  | awaited, line :: rest =>
    let r := chunksFrom kernels tail (awaited.after line) rest
    match opening? kernels awaited line with
    | none => (line :: r.1, r.2)
    | some name => ([], ⟨name, line :: r.1⟩ :: r.2)

/-- **No line is lost.** -/
theorem chunksFrom_lines (kernels : List Text) (tail : Text) (awaited : Awaited)
    (lines : List Text) :
    (chunksFrom kernels tail awaited lines).1 ++
      ((chunksFrom kernels tail awaited lines).2.map Chunk.lines).flatten = lines ++ [tail] := by
  induction lines generalizing awaited with
  | nil => rfl
  | cons line rest ih =>
    rw [chunksFrom, List.cons_append, ← ih (awaited.after line)]
    cases opening? kernels awaited line <;> rfl

/-- Behind a label line no chunk opens before a blank line is read. -/
theorem chunksFrom_blank_ne_nil (kernels : List Text) (tail : Text) (lines : List Text) :
    (chunksFrom kernels tail .blank lines).1 ≠ [] := by
  cases lines with
  | nil => exact List.cons_ne_nil _ _
  | cons line rest => exact List.cons_ne_nil _ _

/-- **Every chunk opens with the label line of its kernel.** -/
theorem opened_of_mem {chunk : Chunk} (h : chunk ∈ (chunksFrom kernels tail awaited lines).2) :
    chunk.Opened kernels := by
  induction lines generalizing awaited with
  | nil => cases h
  | cons line rest ih =>
    rw [chunksFrom] at h
    cases hopen : opening? kernels awaited line with
    | none =>
      rw [hopen] at h
      exact ih h
    | some name =>
      rw [hopen] at h
      rcases List.mem_cons.mp h with rfl | h
      · obtain ⟨hline, hlisted, hafter⟩ := opening?_eq_some hopen
        obtain ⟨next, more, hmore⟩ :=
          List.exists_cons_of_ne_nil (chunksFrom_blank_ne_nil kernels tail rest)
        exact ⟨hlisted, next, more, by rw [hafter, hmore, hline]⟩
      · exact ih h

/-- The markers of chunks that follow each other from a byte offset on. -/
def marks (offset : Nat) : List Chunk → List Marker
  | [] => []
  | chunk :: chunks => ⟨offset, Text.byteLength chunk.name⟩ ::
    marks (offset + Text.byteLength (Text.ofLines chunk.lines)) chunks

/-- **The markers are the offsets of the chunks.** -/
theorem markersFrom_eq_marks (kernels : List Text) (tail : Text) (awaited : Awaited) (offset : Nat)
    (lines : List Text) : markersFrom kernels awaited offset lines =
      marks (offset + Text.byteLength (Text.ofLines (chunksFrom kernels tail awaited lines).1))
        (chunksFrom kernels tail awaited lines).2 := by
  induction lines generalizing awaited offset with
  | nil => rfl
  | cons line rest ih =>
    have hnext := Text.byteLength_ofLines_cons line
      (chunksFrom kernels tail (awaited.after line) rest).1
    rw [markersFrom_cons, chunksFrom, ih, Nat.add_assoc, Nat.add_assoc, ← Nat.add_assoc _ 1,
      ← hnext]
    cases opening? kernels awaited line <;> rfl

/-! ## Cutting at the markers -/

/-- The piece at a marker, with the text in front of it and behind it. -/
theorem piece_append {a b c : Text} (hname : name <+: b)
    (hlimit : Text.byteLength (a ++ b ++ c) < Word.limit) :
    piece (a ++ b ++ c) ⟨Text.byteLength a, Text.byteLength name⟩
      (Text.byteLength a + Text.byteLength b) = .ok (name, b) := by
  obtain ⟨rest, rfl⟩ := hname
  have hslice : Text.slice? (Text.byteLength a) (Text.byteLength a + Text.byteLength name)
      (a ++ (name ++ rest) ++ c) = some name := by
    rw [← List.append_assoc, List.append_assoc (a ++ name)]
    exact Text.slice?_append a name (rest ++ c)
  have hlength : Text.byteLength (a ++ (name ++ rest) ++ c)
      = Text.byteLength a + (Text.byteLength name + Text.byteLength rest) + Text.byteLength c := by
    simp only [Text.byteLength_append]
  have hstop : Text.byteLength (name ++ rest) = Text.byteLength name + Text.byteLength rest :=
    Text.byteLength_append _ _
  have hend : Word.add (Text.byteLength a) (Text.byteLength name)
      = .ok (Text.byteLength a + Text.byteLength name) := if_pos (by omega)
  have hinside : (decide (Text.byteLength a + Text.byteLength (name ++ rest) < Text.byteLength a) ||
      decide (Text.byteLength (a ++ (name ++ rest) ++ c)
        < Text.byteLength a + Text.byteLength (name ++ rest))) = false := by
    rw [Bool.or_eq_false_iff, decide_eq_false_iff_not, decide_eq_false_iff_not, hlength, hstop]
    omega
  rw [piece]
  simp only [hinside, hend, hslice, Text.slice?_append a (name ++ rest) c, Bool.false_eq_true,
    if_false]

theorem Chunk.Opened.lines_ne_nil {chunk : Chunk} (h : chunk.Opened kernels) :
    chunk.lines ≠ [] := by
  obtain ⟨line, rest, hlines⟩ := h.label
  rw [hlines]
  exact List.cons_ne_nil _ _

/-- The text of a chunk starts with its name, a colon and a line feed. -/
theorem Chunk.Opened.label_prefix {chunk : Chunk} (h : chunk.Opened kernels) :
    chunk.name ++ [':', '\n'] <+: chunk.listing := by
  obtain ⟨line, rest, hlines⟩ := h.label
  rw [Chunk.listing, hlines, joined_cons _ _ (List.cons_ne_nil _ _)]
  exact ⟨joined '\n' (line :: rest), by simp⟩

theorem Chunk.Opened.name_prefix {chunk : Chunk} (h : chunk.Opened kernels) :
    chunk.name <+: chunk.listing :=
  (List.prefix_append _ _).trans h.label_prefix

theorem cut_cons {text : Text} {marker next : Marker} {rest : List Marker} {p : Text × Text}
    {ps : List (Text × Text)} (hne : next.offset ≠ 0)
    (hp : piece text marker (next.offset - 1) = .ok p) (hps : cut text (next :: rest) = .ok ps) :
    cut text (marker :: next :: rest) = .ok (p :: ps) := by
  rw [cut, if_neg hne, hp, hps]
  rfl

/-- **Cutting at the markers of chunks gives their names and texts.** -/
theorem cut_marks {chunks : List Chunk} (hopened : ∀ chunk ∈ chunks, chunk.Opened kernels)
    (hlimit : Text.byteLength (front ++ joined '\n' (chunks.map Chunk.listing)) < Word.limit) :
    cut (front ++ joined '\n' (chunks.map Chunk.listing)) (marks (Text.byteLength front) chunks)
      = .ok (chunks.map fun chunk => (chunk.name, chunk.listing)) := by
  induction chunks generalizing front with
  | nil => rfl
  | cons chunk chunks ih =>
    obtain ⟨hchunk, hchunks⟩ := List.forall_mem_cons.mp hopened
    cases chunks with
    | nil =>
      have hpiece : piece (front ++ chunk.listing ++ []) _ _ = _ :=
        piece_append hchunk.name_prefix (by rw [List.append_nil]; exact hlimit)
      rw [List.append_nil, ← Text.byteLength_append] at hpiece
      exact congrArg (Except.map fun p => [p]) hpiece
    | cons next chunks =>
      have hend : Text.byteLength (Text.ofLines chunk.lines) = Text.byteLength chunk.listing + 1 :=
        Text.byteLength_joined hchunk.lines_ne_nil
      have htext : front ++ joined '\n' ((chunk :: next :: chunks).map Chunk.listing)
          = front ++ chunk.listing ++ '\n' :: joined '\n' ((next :: chunks).map Chunk.listing) := by
        rw [List.map_cons, joined_cons _ _ (by simp), List.append_assoc]
      have hfront : Text.byteLength (front ++ chunk.listing ++ ['\n'])
          = Text.byteLength front + Text.byteLength (Text.ofLines chunk.lines) := by
        rw [hend, Text.byteLength_append, Text.byteLength_append, Nat.add_assoc]
        rfl
      have hrest : cut (front ++ chunk.listing ++ ['\n'] ++
            joined '\n' ((next :: chunks).map Chunk.listing))
          (marks (Text.byteLength (front ++ chunk.listing ++ ['\n'])) (next :: chunks)) = _ :=
        ih hchunks (by rwa [List.append_assoc _ ['\n'], List.singleton_append, ← htext])
      rw [List.append_assoc _ ['\n'], List.singleton_append, hfront] at hrest
      have hstop : Text.byteLength front + Text.byteLength (Text.ofLines chunk.lines) - 1
          = Text.byteLength front + Text.byteLength chunk.listing := by
        omega
      rw [htext] at hlimit ⊢
      refine cut_cons ?_ ?_ hrest
      · change Text.byteLength front + Text.byteLength (Text.ofLines chunk.lines) ≠ 0
        omega
      · change piece _ _
          (Text.byteLength front + Text.byteLength (Text.ofLines chunk.lines) - 1) = _
        rw [hstop]
        exact piece_append hchunk.name_prefix hlimit

end KernelIsa.Split
