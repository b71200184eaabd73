import KernelIsa.Proofs.Artifact.RunPaths
import KernelIsa.Proofs.Build.Accounts

/-!
# Proofs/Build/IntermediateFiles — the files of intermediate code

Among several sources the file for the intermediate code of one is named by the source's stem, as
the file of a kernel is named by the kernel (`Naming.exists_path_eq`).  The part in front of the
stem is the same for all sources and the stem is more than a dot and in one segment, so that two
files have the same steps exactly if the stems are the same (`components_intermediateName_iff`).  A
builder that notes the outputs it passes to the compiler (`Builder.emitting`) has passed one for
each source if it went well (`Target.ends_emitting`); hence the outputs are apart exactly if the
stems are (`Target.emitted_apart_iff`).
-/

namespace KernelIsa

/-! ## Names in one segment -/

namespace Path

variable {name : Bytes} {mark : UInt8}

/-- A name that holds more than dots is plain. -/
theorem isPlain_of_mem (hslash : slash ∉ name) (hmem : mark ∈ name) (hmark : mark ≠ dot) :
    IsPlain name where
  slash_notMem := hslash
  not_idle := by
    rw [isIdle, Bool.or_eq_false_iff, List.isEmpty_eq_false_iff, beq_eq_false_iff_ne]
    exact ⟨List.ne_nil_of_mem hmem, fun h => hmark (List.mem_singleton.mp (h ▸ hmem))⟩
  ne_up h := by
    rw [h] at hmem
    exact hmark (by simpa using hmem)

/-- The bytes in front of a name end with a directory and the start of the name. -/
theorem exists_front_append (bytes : Bytes) :
    ∃ (directory : Path) (start : Bytes), slash ∉ start ∧ directory.front ++ start = bytes := by
  by_cases hslash : slash ∈ bytes.reverse
  · obtain ⟨after, before, hreverse, hafter⟩ := List.eq_append_cons_of_mem hslash
    refine ⟨⟨before.reverse ++ [slash]⟩, after.reverse, by simpa using hafter, ?_⟩
    have hfront : front ⟨before.reverse ++ [slash]⟩ = before.reverse ++ [slash] :=
      if_pos (by simp)
    rw [hfront, ← List.reverse_reverse bytes, hreverse]
    simp
  · exact ⟨⟨[]⟩, bytes, by simpa using hslash, rfl⟩

/-- **What stands behind a mark in the last segment is told by the steps of the path.** -/
theorem components_append_inj (hmark : mark ≠ dot) (hslash : mark ≠ slash) {opening rest rest' : Bytes}
    (hrest : slash ∉ rest) (hrest' : slash ∉ rest')
    (h : components ⟨opening ++ mark :: rest⟩ = components ⟨opening ++ mark :: rest'⟩) :
    rest = rest' := by
  obtain ⟨directory, start, hstart, rfl⟩ := exists_front_append opening
  have hcomponents (rest : Bytes) (hrest : slash ∉ rest) :
      components ⟨directory.front ++ start ++ mark :: rest⟩
        = directory.components ++ [.name (start ++ mark :: rest)] := by
    have hplain : IsPlain (start ++ mark :: rest) := by
      refine isPlain_of_mem ?_ (List.mem_append_right _ List.mem_cons_self) hmark
      rw [List.mem_append, List.mem_cons, not_or, not_or]
      exact ⟨hstart, hslash.symm, hrest⟩
    rw [List.append_assoc, ← join_of_isPlain hplain, components_join hplain]
  rw [hcomponents rest hrest, hcomponents rest' hrest'] at h
  have hlast := Component.name.inj (List.cons.inj (List.append_cancel_left h)).1
  exact (List.cons.inj (List.append_cancel_left hlast)).2

end Path

/-! ## Stems -/

/-- A character begun is read as something. -/
theorem Utf8.scan_some_ne_nil (p : Pending) (bytes : Bytes) : scan (some p) bytes ≠ [] := by
  induction bytes generalizing p with
  | nil => exact List.cons_ne_nil _ _
  | cons b bytes ih =>
    rw [scan_pending_cons]
    split
    · split
      · exact List.cons_ne_nil _ _
      · exact ih _
    · exact List.cons_ne_nil _ _

theorem Utf8.decodeLossy_ne_nil {bytes : Bytes} (h : bytes ≠ []) : decodeLossy bytes ≠ [] := by
  obtain ⟨b, bytes, rfl⟩ := List.exists_cons_of_ne_nil h
  rw [decodeLossy, scan_cons, ne_eq, List.map_eq_nil_iff]
  split
  · exact List.cons_ne_nil _ _
  · exact scan_some_ne_nil _ _
  · exact List.cons_ne_nil _ _

/-- **The stem of a source is not empty and in one segment.** -/
theorem sourceStem_plain (source : Path) : sourceStem source ≠ [] ∧ '/' ∉ sourceStem source := by
  rw [sourceStem, Path.stem?]
  cases hname : source.fileName? with
  | none => exact ⟨by decide, by decide⟩
  | some name =>
    have hplain := Path.isPlain_of_fileName? hname
    obtain hsplit | ⟨stem, extension, hne, -, rfl, hsplit⟩ := Path.splitName_cases name
    · simp only [Option.map_some, Option.getD_some, hsplit]
      exact ⟨Utf8.decodeLossy_ne_nil hplain.ne_nil, Naming.notMem_decodeLossy hplain.slash_notMem⟩
    · simp only [Option.map_some, Option.getD_some, hsplit]
      have hslash := hplain.slash_notMem
      rw [List.mem_append, not_or] at hslash
      exact ⟨Utf8.decodeLossy_ne_nil hne, Naming.notMem_decodeLossy hslash.1⟩

/-- The path of a kernel's file is the same for all kernels up to the dash in front of the kernel.
-/
theorem Naming.exists_path_eq (n : Naming) (device : Text) : ∃ opening, ∀ kernel, n.path device kernel
    = ⟨opening ++ 0x2D :: (Utf8.encode kernel ++ Path.dot :: Utf8.encode n.extension)⟩ := by
  obtain ⟨lead, hlead⟩ : ∃ lead : Text, ∀ kernel, n.front device kernel = lead ++ '-' :: kernel :=
    ⟨_, fun _ => rfl⟩
  have hname (kernel : Text) :
      Utf8.encode (n.front device kernel) ++ Path.dot :: Utf8.encode n.extension
        = Utf8.encode lead ++ 0x2D :: (Utf8.encode kernel ++ Path.dot :: Utf8.encode n.extension) := by
    rw [hlead, Utf8.encode_append, List.append_assoc]
    rfl
  have hroot (kernel : Text) : (Path.mk (Utf8.encode lead
      ++ 0x2D :: (Utf8.encode kernel ++ Path.dot :: Utf8.encode n.extension))).isAbsolute
        = decide ((Utf8.encode lead).head? = some Path.slash) := by
    rw [Bool.eq_iff_iff, Path.isAbsolute_iff, decide_eq_true_iff, List.head?_append]
    cases (Utf8.encode lead).head? with
    | none => exact iff_of_false (fun h => absurd (Option.some.inj h) (by decide)) nofun
    | some b => rfl
  by_cases habsolute : (Utf8.encode lead).head? = some Path.slash
  · refine ⟨Utf8.encode lead, fun kernel => ?_⟩
    rw [path_eq, hname, Path.join, hroot, decide_eq_true habsolute, if_pos rfl]
  · refine ⟨n.directory.front ++ Utf8.encode lead, fun kernel => ?_⟩
    rw [path_eq, hname, Path.join, hroot, decide_eq_false habsolute, if_neg Bool.false_ne_true,
      Path.front, List.append_assoc]
    split
    · rfl
    · rw [List.append_assoc]
      rfl

namespace Target

variable {base source source' : Path} {device compilerName : Text} {sources : List Path}

/-- **Two files of intermediate code are the same exactly if the stems of the sources are**, as soon
as there are several sources. -/
theorem components_intermediateName_iff (h : 1 < sources.length) :
    (intermediateName base device sources source).components
        = (intermediateName base device sources source').components ↔
      sourceStem source = sourceStem source' := by
  rw [intermediateName, intermediateName, if_pos h, if_pos h]
  refine ⟨fun heq => ?_, fun heq => by rw [heq]⟩
  rw [Naming.outputName_eq _ _ _ (sourceStem_plain source).1,
    Naming.outputName_eq _ _ _ (sourceStem_plain source').1] at heq
  obtain ⟨opening, hpath⟩ := (Naming.ofBase base "ll".toList).exists_path_eq device
  rw [hpath, hpath] at heq
  have hsound : (Naming.ofBase base "ll".toList).IsSound :=
    Naming.isSound_ofBase ⟨by decide, by decide⟩
  have hending (source : Path) : Path.slash ∉ Utf8.encode (sourceStem source)
      ++ Path.dot :: Utf8.encode (Naming.ofBase base "ll".toList).extension := by
    rw [List.mem_append, List.mem_cons, not_or, not_or]
    exact ⟨Naming.slash_notMem_encode (sourceStem_plain source).2, by decide,
      Naming.slash_notMem_encode hsound.extension.1⟩
  have hnames := Path.components_append_inj (by decide) (by decide) (hending _) (hending _) heq
  exact Utf8.encode_injective (List.append_cancel_right hnames)

theorem pairwise_intermediateName_iff (base : Path) (device : Text) (sources : List Path) :
    ((sources.map (intermediateName base device sources)).Pairwise
        fun p q => p.components ≠ q.components) ↔ (sources.map sourceStem).Nodup := by
  rw [List.Nodup, List.pairwise_map, List.pairwise_map]
  by_cases hseveral : 1 < sources.length
  · exact List.Pairwise.iff fun source source' =>
      not_congr (components_intermediateName_iff hseveral)
  · -- with one source at most there is nothing to tell apart
    rcases sources with _ | ⟨source, _ | _⟩
    · exact iff_of_true .nil .nil
    · exact iff_of_true (List.pairwise_singleton _ _) (List.pairwise_singleton _ _)
    · exact absurd (by simp) hseveral

end Target

/-! ## What a builder passes to the compiler -/

/-- The builder that notes each output for intermediate code as it is passed to the compiler. -/
def Builder.emitting {σ : Type} (builder : Builder (StateM σ)) :
    Builder (StateM (σ × List Path)) where
  host := builder.host.along beside
  services :=
    { builder.services.along beside with
      compileIntermediate := fun device options source output => do
        modify fun s => (s.1, s.2 ++ [output])
        beside (builder.services.compileIntermediate device options source output) }
  compilerNames := builder.compilerNames
  workspace := builder.workspace

namespace Target

variable {σ : Type} {builder : Builder (StateM σ)} {options : Options} {device compilerName : Text}
  {name : Path → Path} {base : Path} {sources outputs : List Path} {s t : σ}

/-- **Where the intermediate code of some sources is written, each output was passed on once.** -/
theorem ends_emitting
    (h : Ends (intermediates builder options device compilerName name sources).run s (.ok ()) t)
    (outputs : List Path) :
    Ends (intermediates builder.emitting options device compilerName name sources).run (s, outputs)
      (.ok ()) (t, outputs ++ sources.map name) := by
  induction sources generalizing s outputs with
  | nil =>
    obtain ⟨-, rfl⟩ := ends_pure_iff.mp h
    rw [List.map_nil, List.append_nil]
    exact ends_pure_iff.mpr ⟨rfl, rfl⟩
  | cons source sources ih =>
    obtain ⟨_, u, htold, h⟩ := ends_step_bind_iff.mp h
    obtain ⟨answer, v, hcalled, h⟩ := ends_step_bind_iff.mp h
    obtain ⟨_, w, hchecked, h⟩ := ends_step_bind_iff.mp h
    have htold := ends_lift_iff.mp (ends_step_lift_iff.mp htold)
    have hcalled := ends_step_ask_iff.mp hcalled
    obtain ⟨hsuccess, rfl⟩ := ends_pure_iff.mp hchecked
    have hrest := ih h (outputs ++ [name source])
    rw [List.append_assoc, List.singleton_append, ← List.map_cons] at hrest
    refine ends_step_bind_iff.mpr ⟨_, (u, outputs),
      ends_step_lift_iff.mpr (ends_lift_iff.mpr (run_beside htold _)), ?_⟩
    refine ends_step_bind_iff.mpr ⟨answer, (v, outputs ++ [name source]),
      ends_step_ask_iff.mpr (run_beside hcalled _), ?_⟩
    exact ends_step_bind_iff.mpr ⟨_, _, ends_pure_iff.mpr ⟨hsuccess, rfl⟩, hrest⟩

/-- Writes the intermediate code of a target beside a base name. -/
abbrev writing (builder : Builder (StateM σ)) (request : Request) (base : Path) (device : Text) :
    Step (StateM σ) Unit :=
  intermediates builder request.options device (builder.compilerNames.nameFor device)
    (intermediateName base device request.sources) request.sources

/-- The outputs that are passed to the compiler for the intermediate code of a target, if that
starts in the state `s`. -/
def emitted (builder : Builder (StateM σ)) (request : Request) (base : Path) (device : Text)
    (s : σ) : List Path :=
  ((writing builder.emitting request base device).run.run.run (s, [])
    : Except Overflow (Except Fault Unit) × (σ × List Path)).2.2

/-- **Where the intermediate code of a target is written, one output was passed on for each source,
and they are all different exactly if the stems of the sources are.** -/
theorem emitted_apart_iff {request : Request}
    (h : Ends (writing builder request base device).run s (.ok ()) t) :
    emitted builder request base device s
        = request.sources.map (intermediateName base device request.sources) ∧
      (((emitted builder request base device s).Pairwise fun p q => p.components ≠ q.components) ↔
        (request.sources.map sourceStem).Nodup) := by
  have houtputs : emitted builder request base device s
      = request.sources.map (intermediateName base device request.sources) := by
    have hends : Ends (writing builder.emitting request base device).run (s, []) (.ok ())
        (t, [] ++ request.sources.map (intermediateName base device request.sources)) :=
      ends_emitting h []
    rw [emitted, hends]
    rfl
  refine ⟨houtputs, ?_⟩
  rw [houtputs]
  exact pairwise_intermediateName_iff base device request.sources

/-- The base name of the intermediate code in the examples. -/
def intermediateBase : Path := Path.ofText "ir.ll".toList

/-- A request for the intermediate code of two sources. -/
def twoSources : Request where
  devices := ["gfx906".toList]
  sources := [Path.ofText "a/k.cl".toList, Path.ofText "a/m.cl".toList]
  outputs := { intermediate := some intermediateBase }

theorem emitted_apart_iff_twoSources :
    ∃ t, Ends (writing (Run.rehearsed {}) twoSources intermediateBase "gfx906".toList).run {}
        (.ok ()) t ∧
      emitted (Run.rehearsed {}) twoSources intermediateBase "gfx906".toList {}
        = twoSources.sources.map
          (intermediateName intermediateBase "gfx906".toList twoSources.sources) ∧
      (((emitted (Run.rehearsed {}) twoSources intermediateBase "gfx906".toList {}).Pairwise
          fun p q => p.components ≠ q.components) ↔
        (twoSources.sources.map sourceStem).Nodup) := by
  obtain ⟨_, t, h⟩ := exists_ends_of_gives
    (x := (writing (Run.rehearsed {}) twoSources intermediateBase "gfx906".toList).run) (s := {})
    (by decide +kernel)
  exact ⟨t, h, emitted_apart_iff h⟩

/-- The same request for two sources of one name, in two directories. -/
def twoDirectories : Request :=
  { twoSources with sources := [Path.ofText "a/k.cl".toList, Path.ofText "b/k.cl".toList] }

/-- The sources are different and have names, their intermediate code is written, and the second
output is the first one again. -/
theorem not_emitted_apart_twoDirectories :
    (twoDirectories.sources.Pairwise fun p q => p.components ≠ q.components) ∧
      (∀ source ∈ twoDirectories.sources, source.fileName?.isSome) ∧
      (∃ t, Ends (writing (Run.rehearsed {}) twoDirectories intermediateBase "gfx906".toList).run {}
        (.ok ()) t) ∧
      ¬ (emitted (Run.rehearsed {}) twoDirectories intermediateBase "gfx906".toList {}).Pairwise
        fun p q => p.components ≠ q.components := by
  obtain ⟨_, t, h⟩ := exists_ends_of_gives
    (x := (writing (Run.rehearsed {}) twoDirectories intermediateBase "gfx906".toList).run)
    (s := {}) (by decide +kernel)
  exact ⟨by decide, by decide, ⟨t, h⟩, by decide +kernel⟩

end Target

end KernelIsa
