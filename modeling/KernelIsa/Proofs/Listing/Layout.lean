import KernelIsa.Proofs.Listing.SplitFragments
import Mathlib.Data.Bool.AllAny

/-!
# Proofs/Listing/Layout — the disassembler's layout, split again

A disassembler prints a `Block` as its label and its lines, and puts a blank line between blocks
(`printAll`).  Stripping the labels leaves the `rows` of the blocks (`strip_printAll`), a chunk of
them is a listed block with the unlisted ones behind it (`chunks_printAll`), and so `split` undoes
the layout.
-/

namespace KernelIsa.Split

/-- A block of a disassembly: an address, a name, and the lines under the label. -/
structure Block where
  address : Text
  name : Text
  lines : List Text

namespace Block

/-- The label line as it is printed. -/
def label (b : Block) : Text := b.address ++ ' ' :: '<' :: (b.name ++ ['>', ':'])

/-- The block as it is printed. -/
def print (b : Block) : Text := Text.ofLines (b.label :: b.lines)

/-- The lines of the block without the address. -/
def rows (b : Block) : List Text := (b.name ++ [':']) :: b.lines

/-- The block without its address. -/
def plain (b : Block) : Text := Text.ofLines b.rows

/-- What a disassembler prints: a label, and lines that hold no part of one and are not blank. -/
structure Printable (b : Block) : Prop where
  address_ne_nil : b.address ≠ []
  address_alnum : ∀ c ∈ b.address, c.isAlphanum
  name_ne_nil : b.name ≠ []
  name_sign : ∀ c ∈ b.name, c ∉ ['\n', '<', '>']
  line_ne_nil : ∀ l ∈ b.lines, l ≠ []
  line_feed : ∀ l ∈ b.lines, '\n' ∉ l
  line_sign : ∀ l ∈ b.lines, ¬ [' ', '<'] <:+: l ∧ ¬ ['>', ':'] <:+: l

end Block

variable {kernels ls rest : List Text} {name tail : Text} {b : Block} {blocks blocks' : List Block}

/-- The blocks as they are printed, a blank line between them. -/
def printAll (blocks : List Block) : Text := joined '\n' (blocks.map Block.print)

/-! ## Stripped labels -/

theorem Block.Printable.map_strip (h : b.Printable) :
    (b.label :: b.lines).map LabelAddress.strip = b.rows := by
  have hlabel : LabelAddress.strip b.label = b.name ++ [':'] :=
    LabelAddress.strip_label h.address_ne_nil h.address_alnum
      (fun hc => h.name_sign '<' hc (by decide)) fun hc => h.name_sign '>' hc (by decide)
  have hlines : b.lines.map LabelAddress.strip = b.lines := by
    rw [List.map_congr_left fun l hl =>
      LabelAddress.strip_eq_self (h.line_sign l hl).1 (h.line_sign l hl).2]
    exact List.map_id _
  rw [List.map_cons, hlabel, hlines, Block.rows]

/-- **Without the addresses the blocks are their rows.** -/
theorem strip_printAll (h : ∀ b ∈ blocks, b.Printable) :
    LabelAddress.strip (printAll blocks) = Text.ofLines (joined [] (blocks.map Block.rows)) := by
  have hprint : blocks.map Block.print
      = (blocks.map fun b => b.label :: b.lines).map Text.ofLines := by
    rw [List.map_map]
    rfl
  have hrows : (blocks.map fun b => b.label :: b.lines).map (List.map LabelAddress.strip)
      = blocks.map Block.rows := by
    rw [List.map_map]
    exact List.map_congr_left fun b hb => (h b hb).map_strip
  rw [printAll, hprint, Text.joined_map_ofLines, LabelAddress.strip_ofLines, map_joined, hrows]
  rfl

theorem newline_not_mem_rows (h : ∀ b ∈ blocks, b.Printable) :
    ∀ l ∈ joined [] (blocks.map Block.rows), '\n' ∉ l := by
  intro l hl
  rcases mem_joined hl with rfl | ⟨rows, hrows, hl⟩
  · exact List.not_mem_nil
  · obtain ⟨b, hb, rfl⟩ := List.mem_map.mp hrows
    rcases List.mem_cons.mp hl with rfl | hl
    · intro hfeed
      rcases List.mem_append.mp hfeed with hfeed | hfeed
      · exact (h b hb).name_sign _ hfeed (by decide)
      · exact absurd hfeed (by decide)
    · exact (h b hb).line_feed l hl

/-! ## Chunks of blocks -/

/-- The rows of blocks, each with the blank line behind it. -/
def rowsOf (blocks : List Block) : List Text := blocks.flatMap fun b => b.rows ++ [[]]

/-- The blocks in front of the first listed one. -/
def unlisted (kernels : List Text) (blocks : List Block) : List Block :=
  blocks.takeWhile fun b => b.name ∉ kernels

theorem rowsOf_cons (b : Block) (blocks : List Block) :
    rowsOf (b :: blocks) = b.rows ++ [] :: rowsOf blocks := by
  rw [rowsOf, List.flatMap_cons, List.append_assoc]
  rfl

theorem unlisted_cons_of_mem (h : b.name ∈ kernels) (blocks : List Block) :
    unlisted kernels (b :: blocks) = [] :=
  List.takeWhile_cons_of_neg (by simpa using h)

theorem unlisted_cons_of_not_mem (h : b.name ∉ kernels) (blocks : List Block) :
    unlisted kernels (b :: blocks) = b :: unlisted kernels blocks :=
  List.takeWhile_cons_of_pos (by simpa using h)

/-- The chunks of blocks: each listed block with the unlisted ones behind it. -/
def blockChunks (kernels : List Text) : List Block → List Chunk
  | [] => []
  | b :: blocks =>
    if b.name ∈ kernels then
      ⟨b.name, rowsOf (b :: unlisted kernels blocks)⟩ :: blockChunks kernels blocks
    else blockChunks kernels blocks

/-- Lines that are not blank open no chunk behind a label line. -/
theorem chunksFrom_lines_append (h : ∀ l ∈ ls, l ≠ []) :
    chunksFrom kernels tail .blank (ls ++ rest) =
      (ls ++ (chunksFrom kernels tail .blank rest).1, (chunksFrom kernels tail .blank rest).2) := by
  induction ls with
  | nil => rfl
  | cons l ls ih =>
    obtain ⟨hl, hls⟩ := List.forall_mem_cons.mp h
    have hafter : Awaited.after .blank l = .blank := by
      rw [Awaited.after, List.isEmpty_eq_false_iff.mpr hl]
      rfl
    rw [List.cons_append, chunksFrom, hafter, ih hls]
    rfl

theorem chunksFrom_label : chunksFrom kernels tail .label ((name ++ [':']) :: rest) =
    if name ∈ kernels then
      ([], ⟨name, (name ++ [':']) :: (chunksFrom kernels tail .blank rest).1⟩ ::
        (chunksFrom kernels tail .blank rest).2)
    else ((name ++ [':']) :: (chunksFrom kernels tail .blank rest).1,
      (chunksFrom kernels tail .blank rest).2) := by
  have hending : Text.dropEnding? [':'] (name ++ [':']) = some name :=
    Text.dropEnding?_eq_some_iff.mpr rfl
  have hafter : Awaited.after .label (name ++ [':']) = .blank := by
    rw [Awaited.after, hending]
    rfl
  rw [chunksFrom, hafter, opening?, hending, Option.filter]
  by_cases h : name ∈ kernels
  · rw [if_pos h, if_pos (List.contains_iff_mem.mpr h)]
  · rw [if_neg h, if_neg (mt List.contains_iff_mem.mp h)]

/-- **The chunks of a printed text are those of its blocks.** -/
theorem chunksFrom_rows (h : ∀ b ∈ blocks, b.Printable) (hne : blocks ≠ []) :
    chunksFrom kernels [] .label (joined [] (blocks.map Block.rows)) =
      (rowsOf (unlisted kernels blocks), blockChunks kernels blocks) := by
  induction blocks with
  | nil => exact absurd rfl hne
  | cons b blocks ih =>
    obtain ⟨hb, hblocks⟩ := List.forall_mem_cons.mp h
    obtain ⟨rest, hrows, hrest⟩ : ∃ rest, joined [] ((b :: blocks).map Block.rows)
        = (b.name ++ [':']) :: (b.lines ++ rest) ∧ chunksFrom kernels [] .blank rest
          = ([] :: rowsOf (unlisted kernels blocks), blockChunks kernels blocks) := by
      cases blocks with
      | nil => exact ⟨[], by rw [List.append_nil]; rfl, rfl⟩
      | cons next blocks =>
        refine ⟨[] :: joined [] ((next :: blocks).map Block.rows), rfl, ?_⟩
        have hnext : chunksFrom kernels [] (Awaited.after .blank []) _ = _ :=
          ih hblocks (List.cons_ne_nil _ _)
        rw [chunksFrom, hnext]
        rfl
    rw [hrows, chunksFrom_label, chunksFrom_lines_append hb.line_ne_nil, hrest, blockChunks]
    by_cases hlisted : b.name ∈ kernels
    · rw [if_pos hlisted, if_pos hlisted, unlisted_cons_of_mem hlisted, rowsOf_cons]
      rfl
    · rw [if_neg hlisted, if_neg hlisted, unlisted_cons_of_not_mem hlisted, rowsOf_cons]
      rfl

/-- **The chunks of a printed text are its listed blocks**, each with the unlisted ones behind
it. -/
theorem chunks_printAll (h : ∀ b ∈ blocks, b.Printable) :
    chunks (LabelAddress.strip (printAll blocks)) kernels = blockChunks kernels blocks := by
  rw [strip_printAll h, chunks, Text.terminated_ofLines (newline_not_mem_rows h)]
  by_cases hne : blocks = []
  · rw [hne]
    rfl
  · rw [chunksFrom_rows h hne]

theorem map_name_blockChunks (kernels : List Text) (blocks : List Block) :
    (blockChunks kernels blocks).map Chunk.name
      = (blocks.map Block.name).filter fun name => name ∈ kernels := by
  induction blocks with
  | nil => rfl
  | cons b blocks ih =>
    rw [blockChunks, List.map_cons]
    by_cases h : b.name ∈ kernels
    · rw [if_pos h, List.filter_cons_of_pos (by simpa using h), ← ih]
      rfl
    · rw [if_neg h, List.filter_cons_of_neg (by simpa using h), ← ih]

theorem mem_blockChunks {before after : List Block} (h : b.name ∈ kernels) :
    ⟨b.name, rowsOf (b :: unlisted kernels after)⟩ ∈
      blockChunks kernels (before ++ b :: after) := by
  induction before with
  | nil =>
    rw [List.nil_append, blockChunks, if_pos h]
    exact List.mem_cons_self
  | cons c before ih =>
    rw [List.cons_append, blockChunks]
    split
    · exact List.mem_cons_of_mem _ ih
    · exact ih

/-- The text of rows is that of the blocks without their addresses. -/
theorem joined_rowsOf (blocks : List Block) :
    joined '\n' (rowsOf blocks) = joined '\n' (blocks.map Block.plain) := by
  have hplain : ∀ b : Block, b.plain = joined '\n' (b.rows ++ [[]]) := fun b => by
    rw [Text.joined_append (List.cons_ne_nil _ _)]
    exact (List.append_nil _).symm
  have hmap : blocks.map Block.plain = (blocks.map fun b => b.rows ++ [[]]).map (joined '\n') := by
    rw [List.map_map]
    exact List.map_congr_left fun b _ => hplain b
  rw [hmap, Text.joined_map_joined fun ls hls => ?_]
  · rw [rowsOf, List.flatMap_def]
  · obtain ⟨b, -, rfl⟩ := List.mem_map.mp hls
    exact List.append_ne_nil_of_right_ne_nil _ (List.cons_ne_nil _ _)

/-! ## The fragments of a printed text -/

/-- The name and fragment of every listed block. -/
def listings (kernels : List Text) (blocks : List Block) : List (Text × Text) :=
  (blockChunks kernels blocks).map fun chunk =>
    (chunk.name, Fragment.withHeader chunk.name chunk.listing)

theorem map_fst_listings (kernels : List Text) (blocks : List Block) :
    (listings kernels blocks).map Prod.fst
      = (blocks.map Block.name).filter fun name => name ∈ kernels := by
  rw [listings, List.map_map, ← map_name_blockChunks]
  rfl

/-- Where every block is listed, a fragment is one block. -/
theorem listings_of_all_listed (h : ∀ b ∈ blocks, b.name ∈ kernels) :
    listings kernels blocks = blocks.map fun b => (b.name, Fragment.withHeader b.name b.plain) := by
  induction blocks with
  | nil => rfl
  | cons b blocks ih =>
    obtain ⟨hb, hblocks⟩ := List.forall_mem_cons.mp h
    have hunlisted : unlisted kernels blocks = [] := by
      cases blocks with
      | nil => rfl
      | cons c blocks => exact unlisted_cons_of_mem (hblocks c List.mem_cons_self) _
    rw [List.map_cons, ← ih hblocks, listings, blockChunks, if_pos hb, List.map_cons, hunlisted,
      Chunk.listing, joined_rowsOf]
    rfl

/-- **The fragments are those of the listed blocks.** -/
theorem split_eq_listings (kernels : List Text) (h : ∀ b ∈ blocks, b.Printable)
    (hlimit : Text.byteLength (printAll blocks) < Word.limit) :
    ∃ fragments, split (printAll blocks) kernels = .ok fragments ∧
      fragments.byKernel = Keyed.ofList (listings kernels blocks) := by
  refine ⟨_, split_eq hlimit, ?_⟩
  dsimp only
  rw [chunks_printAll h]
  rfl

/-- The fragments of a disassembly are those of its listed blocks: the body of one is its block and
the unlisted blocks behind it, without their addresses. -/
structure FragmentsOf (kernels : List Text) (blocks : List Block) (fragments : Fragments) :
    Prop where
  found : ∀ name, (fragments.byKernel.get? name).isSome ↔
    name ∈ kernels ∧ name ∈ blocks.map Block.name
  body : ∀ before b after, blocks = before ++ b :: after → b.name ∈ kernels →
    (fragments.byKernel.get? b.name).map Fragment.body
      = some (joined '\n' ((b :: unlisted kernels after).map Block.plain))

theorem nodup_listings (hnames : (blocks.map Block.name).Nodup) :
    ((listings kernels blocks).map Prod.fst).Nodup := by
  rw [map_fst_listings]
  exact hnames.filter _

theorem mem_listings {before after : List Block} (h : b.name ∈ kernels) :
    (b.name,
        Fragment.withHeader b.name (joined '\n' ((b :: unlisted kernels after).map Block.plain)))
      ∈ listings kernels (before ++ b :: after) := by
  rw [← joined_rowsOf]
  exact List.mem_map_of_mem (mem_blockChunks h)

/-- Where every block is listed, their order does not matter. -/
theorem listings_perm (hall : ∀ b ∈ blocks, b.name ∈ kernels) (hperm : blocks'.Perm blocks) :
    (listings kernels blocks').Perm (listings kernels blocks) := by
  rw [listings_of_all_listed hall, listings_of_all_listed fun b hb => hall b (hperm.subset hb)]
  exact hperm.map _

theorem fragmentsOf_listings {fragments : Fragments} (hform : ∀ b ∈ blocks, b.Printable)
    (hnames : (blocks.map Block.name).Nodup)
    (hkernels : fragments.byKernel = Keyed.ofList (listings kernels blocks)) :
    FragmentsOf kernels blocks fragments := by
  refine ⟨fun name => ?_, fun before b after hblocks hlisted => ?_⟩
  · have hkeys : name ∈ (listings kernels blocks).map Prod.fst ↔
        name ∈ kernels ∧ name ∈ blocks.map Block.name := by
      rw [map_fst_listings, List.mem_filter, decide_eq_true_eq, and_comm]
    rw [hkernels, Keyed.get?_ofList, ← hkeys, List.mem_map, Option.isSome_iff_ne_none, ne_eq,
      Keyed.last?_eq_none_iff]
    simp
  · have hb : b ∈ blocks := hblocks ▸ List.mem_append_right _ List.mem_cons_self
    have hname : '\n' ∉ b.name := fun hc => (hform b hb).name_sign _ hc (by decide)
    have hmem : _ ∈ listings kernels (before ++ b :: after) := mem_listings hlisted
    rw [← hblocks] at hmem
    rw [hkernels, Keyed.get?_ofList, (Keyed.last?_eq_some_iff (nodup_listings hnames)).mpr hmem,
      Option.map_some, Fragment.body_withHeader hname]

/-- **Splitting undoes the layout**: it gives the fragment of every listed block and no other; where
every block is listed, the order of the blocks does not matter. -/
theorem split_printAll (hform : ∀ b ∈ blocks, b.Printable) (hnames : (blocks.map Block.name).Nodup)
    (hlimit : Text.byteLength (printAll blocks) < Word.limit) :
    ∃ fragments, split (printAll blocks) kernels = .ok fragments ∧
      FragmentsOf kernels blocks fragments ∧
      ((∀ b ∈ blocks, b.name ∈ kernels) → ∀ blocks', blocks'.Perm blocks →
        ∃ fragments', split (printAll blocks') kernels = .ok fragments' ∧
          fragments'.byKernel = fragments.byKernel) := by
  obtain ⟨fragments, hsplit, hkernels⟩ := split_eq_listings kernels hform hlimit
  refine ⟨fragments, hsplit, fragmentsOf_listings hform hnames hkernels,
    fun hall blocks' hperm => ?_⟩
  have hform' : ∀ b ∈ blocks', b.Printable := fun b hb => hform b (hperm.subset hb)
  have hlimit' : Text.byteLength (printAll blocks') < Word.limit := by
    rwa [printAll, Text.byteLength_joined_perm (hperm.map Block.print)]
  obtain ⟨fragments', hsplit', hkernels'⟩ := split_eq_listings kernels hform' hlimit'
  refine ⟨fragments', hsplit', ?_⟩
  rw [hkernels', hkernels,
    Keyed.ofList_eq_of_perm (nodup_listings hnames) (listings_perm hall hperm).symm]

/-- Two printed blocks, both listed. -/
def sampleBlocks : List Block :=
  [⟨['0'], ['k'], [['a']]⟩, ⟨"1F".toList, ['j'], [['b'], ['c', ':']]⟩]

/-- The sample, split again in either order. -/
theorem split_printAll_sampleBlocks :
    ∃ fragments, split (printAll sampleBlocks) [['j'], ['k']] = .ok fragments ∧
      FragmentsOf [['j'], ['k']] sampleBlocks fragments ∧
      ((∀ b ∈ sampleBlocks, b.name ∈ [['j'], ['k']]) → ∀ blocks', blocks'.Perm sampleBlocks →
        ∃ fragments', split (printAll blocks') [['j'], ['k']] = .ok fragments' ∧
          fragments'.byKernel = fragments.byKernel) := by
  have hform : ∀ b ∈ sampleBlocks, b.Printable := by
    rw [sampleBlocks, List.forall_mem_cons, List.forall_mem_singleton]
    exact ⟨⟨by decide, List.all_iff_forall_prop.mp (by decide), by decide,
        List.all_iff_forall_prop.mp (by decide), by decide, by decide, by decide⟩,
      ⟨by decide, List.all_iff_forall_prop.mp (by decide), by decide,
        List.all_iff_forall_prop.mp (by decide), by decide, by decide, by decide⟩⟩
  exact split_printAll hform (by decide) (by decide)

end KernelIsa.Split
