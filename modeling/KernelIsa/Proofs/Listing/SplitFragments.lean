import KernelIsa.Proofs.Collection.LookUp
import KernelIsa.Proofs.Listing.Chunks
import KernelIsa.Proofs.Listing.Headers
import KernelIsa.Proofs.Listing.StripLabels

/-!
# Proofs/Listing/SplitFragments — splitting a disassembly never fails

The markers of a text are the offsets of its chunks (`markers_eq_marks`), so that cutting there
succeeds on every text that fits into 64-bit offsets (`cut_markers`), and a fragment is the header
with the last chunk of its kernel (`split_eq`).  The byte length of a text in memory is a word, so
the limit excludes none.
-/

namespace KernelIsa.Split

variable {text disassembly name listing : Text} {kernels : List Text}

/-! ## The chunks of a text -/

/-- The lines of a text in front of the first kernel. -/
def front (text : Text) (kernels : List Text) : List Text :=
  (chunksFrom kernels (Text.terminated text).2 .label (Text.terminated text).1).1

/-- The chunks of the listed kernels of a text. -/
def chunks (text : Text) (kernels : List Text) : List Chunk :=
  (chunksFrom kernels (Text.terminated text).2 .label (Text.terminated text).1).2

theorem opened_of_mem_chunks {chunk : Chunk} (h : chunk ∈ chunks text kernels) :
    chunk.Opened kernels :=
  opened_of_mem h

theorem lines_eq (text : Text) (kernels : List Text) :
    front text kernels ++ ((chunks text kernels).map Chunk.lines).flatten
      = (Text.terminated text).1 ++ [(Text.terminated text).2] :=
  chunksFrom_lines _ _ _ _

/-- **The text is what stands in front of the first kernel, and the chunks.** -/
theorem text_eq (h : chunks text kernels ≠ []) :
    Text.ofLines (front text kernels) ++ joined '\n' ((chunks text kernels).map Chunk.listing) =
      text := by
  have hlines : ∀ ls ∈ (chunks text kernels).map Chunk.lines, ls ≠ [] := fun ls hls => by
    obtain ⟨chunk, hchunk, rfl⟩ := List.mem_map.mp hls
    exact (opened_of_mem_chunks hchunk).lines_ne_nil
  have hflat : ((chunks text kernels).map Chunk.lines).flatten ≠ [] := by
    obtain ⟨chunk, rest, hcons⟩ := List.exists_cons_of_ne_nil h
    rw [hcons] at hlines ⊢
    exact List.append_ne_nil_of_left_ne_nil (hlines _ List.mem_cons_self) _
  have hlistings : (chunks text kernels).map Chunk.listing
      = ((chunks text kernels).map Chunk.lines).map (joined '\n') := by
    rw [List.map_map]
    rfl
  rw [hlistings, Text.joined_map_joined hlines, ← Text.joined_append hflat, lines_eq,
    Text.joined_append (List.cons_ne_nil _ _)]
  exact Text.ofLines_terminated text

/-- **The markers are the offsets of the chunks.** -/
theorem markers_eq_marks (text : Text) (kernels : List Text) : markers text kernels =
    marks (Text.byteLength (Text.ofLines (front text kernels))) (chunks text kernels) := by
  rw [markers, markersFrom_eq_marks kernels (Text.terminated text).2, Nat.zero_add]
  rfl

/-- **Cutting at the markers succeeds.** -/
theorem cut_markers (hlimit : Text.byteLength text < Word.limit) :
    cut text (markers text kernels)
      = .ok ((chunks text kernels).map fun chunk => (chunk.name, chunk.listing)) := by
  rw [markers_eq_marks]
  by_cases h : chunks text kernels = []
  · rw [h]
    rfl
  · have htext := text_eq h
    have hcut := cut_marks (fun chunk => opened_of_mem_chunks) (htext.symm ▸ hlimit)
    rwa [htext] at hcut

/-- **The fragments are the chunks with their headers.** -/
theorem split_eq (hlimit : Text.byteLength disassembly < Word.limit) :
    split disassembly kernels = .ok {
      byKernel := Keyed.ofList ((chunks (LabelAddress.strip disassembly) kernels).map fun chunk =>
        (chunk.name, Fragment.withHeader chunk.name chunk.listing))
      found := (chunks (LabelAddress.strip disassembly) kernels).length
      listed := kernels.length } := by
  have hlimit' := Nat.lt_of_le_of_lt (LabelAddress.byteLength_strip disassembly) hlimit
  rw [split]
  simp only [cut_markers hlimit', bind, Except.bind, List.map_map, List.length_map]
  rfl

/-! ## Order and names -/

/-- The markers of chunks lie in strict order, none before the first offset. -/
theorem pairwise_marks {cs : List Chunk} (hopened : ∀ chunk ∈ cs, chunk.Opened kernels)
    (offset : Nat) : (∀ marker ∈ marks offset cs, offset ≤ marker.offset) ∧
      (marks offset cs).Pairwise fun a b => a.offset < b.offset := by
  induction cs generalizing offset with
  | nil => exact ⟨fun _ h => absurd h List.not_mem_nil, .nil⟩
  | cons chunk cs ih =>
    obtain ⟨hchunk, hcs⟩ := List.forall_mem_cons.mp hopened
    obtain ⟨hfrom, hpairwise⟩ := ih hcs (offset + Text.byteLength (Text.ofLines chunk.lines))
    have hlength := Text.byteLength_joined hchunk.lines_ne_nil
    refine ⟨fun marker h => ?_, List.pairwise_cons.mpr ⟨fun marker h => ?_, hpairwise⟩⟩
    · rcases List.mem_cons.mp h with rfl | h
      · exact Nat.le_refl _
      · exact Nat.le_trans (Nat.le_add_right _ _) (hfrom marker h)
    · have hmarker := hfrom marker h
      change offset < marker.offset
      omega

theorem map_nameLength_marks (offset : Nat) (cs : List Chunk) :
    (marks offset cs).map Marker.nameLength = cs.map fun chunk => Text.byteLength chunk.name := by
  induction cs generalizing offset with
  | nil => rfl
  | cons chunk cs ih => exact congrArg (Text.byteLength chunk.name :: ·) (ih _)

/-- From the first marker on the text is its chunks. -/
theorem dropBytes?_first {first : Marker} (h : first ∈ (markers text kernels).head?) :
    Text.dropBytes? first.offset text
      = some (joined '\n' ((chunks text kernels).map Chunk.listing)) := by
  rw [markers_eq_marks] at h
  cases hchunks : chunks text kernels with
  | nil =>
    rw [hchunks] at h
    cases h
  | cons chunk cs =>
    have hne : chunks text kernels ≠ [] := by
      rw [hchunks]
      exact List.cons_ne_nil _ _
    have htext := text_eq hne
    rw [hchunks] at h htext
    obtain rfl := Option.some.inj h
    have hdrop := Text.dropBytes?_append (Text.ofLines (front text kernels))
      (joined '\n' ((chunk :: cs).map Chunk.listing))
    rwa [htext] at hdrop

/-- The name of a chunk stands on one line. -/
theorem newline_not_mem_name {chunk : Chunk} (h : chunk ∈ chunks text kernels) :
    '\n' ∉ chunk.name := by
  obtain ⟨line, rest, hlines⟩ := (opened_of_mem_chunks h).label
  have hlabel : chunk.name ++ [':'] ∈ (Text.terminated text).1 ++ [(Text.terminated text).2] := by
    rw [← lines_eq text kernels]
    refine List.mem_append_right _ (List.mem_flatten.mpr ⟨_, List.mem_map_of_mem h, ?_⟩)
    rw [hlines]
    exact List.mem_cons_self
  obtain ⟨hended, htail⟩ := Text.newline_not_mem_terminated text
  have hfree : '\n' ∉ chunk.name ++ [':'] := by
    rcases List.mem_append.mp hlabel with h | h
    · exact hended _ h
    · rwa [List.mem_singleton.mp h]
  exact fun hmem => hfree (List.mem_append_left _ hmem)

/-! ## The whole split -/

/-- What the markers, pieces and fragments of a text have to do with each other. -/
structure Splits (kernels : List Text) (text : Text) (pieces : List (Text × Text))
    (fragments : Fragments) : Prop where
  /-- Cutting at the markers gives the pieces. -/
  cut : cut text (markers text kernels) = .ok pieces
  /-- The markers lie in strict order. -/
  ordered : (markers text kernels).Pairwise fun a b => a.offset < b.offset
  /-- Each marker is that of the piece. -/
  names : (markers text kernels).map Marker.nameLength = pieces.map fun p => Text.byteLength p.1
  /-- The pieces make up the text from the first marker on. -/
  whole : ∀ first ∈ (markers text kernels).head?,
    Text.dropBytes? first.offset text = some (joined '\n' (pieces.map Prod.snd))
  /-- Each piece starts with the label line of a listed kernel. -/
  label : ∀ p ∈ pieces, p.1 ∈ kernels ∧ p.1 ++ [':', '\n'] <+: p.2
  /-- The fragment of a kernel is its last piece behind the header. -/
  fragment : ∀ name, fragments.byKernel.get? name
    = (Keyed.last? name pieces).map (Fragment.withHeader name)
  /-- The piece is got back from the fragment. -/
  body : ∀ name listing, Keyed.last? name pieces = some listing →
    Fragment.body (Fragment.withHeader name listing) = listing

/-- **Splitting a disassembly never fails**, and no marker, piece or fragment is out of place. -/
theorem split_total (hlimit : Text.byteLength disassembly < Word.limit) :
    ∃ pieces fragments, split disassembly kernels = .ok fragments ∧
      Splits kernels (LabelAddress.strip disassembly) pieces fragments := by
  have hlimit' := Nat.lt_of_le_of_lt (LabelAddress.byteLength_strip disassembly) hlimit
  refine ⟨_, _, split_eq hlimit, cut_markers hlimit', ?_, ?_, ?_, ?_, ?_, ?_⟩
  · rw [markers_eq_marks]
    exact (pairwise_marks (fun chunk => opened_of_mem_chunks) _).2
  · rw [markers_eq_marks, map_nameLength_marks, List.map_map]
    rfl
  · intro first hfirst
    rw [dropBytes?_first hfirst, List.map_map]
    rfl
  · intro p hp
    obtain ⟨chunk, hchunk, rfl⟩ := List.mem_map.mp hp
    have hopened := opened_of_mem_chunks hchunk
    exact ⟨hopened.listed, hopened.label_prefix⟩
  · intro name
    rw [Keyed.get?_ofList, ← Keyed.last?_map Fragment.withHeader, List.map_map]
    rfl
  · intro name listing hlast
    obtain ⟨chunk, hchunk, heq⟩ := List.mem_map.mp (Keyed.mem_of_last? hlast)
    have hname := newline_not_mem_name hchunk
    rw [(Prod.mk.inj heq).1] at hname
    exact Fragment.body_withHeader hname

/-- A kernel that is listed twice in the disassembly, with another one between. -/
theorem split_total_repeated :
    ∃ pieces fragments,
      split "0 <k>:\na\n\n8 <j>:\nb\n\nk:\nc".toList [['k'], ['j']] = .ok fragments ∧
        Splits [['k'], ['j']]
          (LabelAddress.strip "0 <k>:\na\n\n8 <j>:\nb\n\nk:\nc".toList) pieces fragments :=
  split_total (by decide)

end KernelIsa.Split
