import KernelIsa.Proofs.Build.Confined
import KernelIsa.Proofs.Build.TargetOutcome
import Mathlib.Data.Set.Image

/-!
# Proofs/Build/TargetFiles — the files that the build of a target touches

Where every action of the host and the services keeps to the files it is given
(`Builder.IsLocal`), the build of a target reads the sources and writes its binary, its intermediate
code and the listings of the kernels that it finds, and nothing else (`Target.confined_build`).
-/

namespace KernelIsa

variable {σ L C α : Type} {place : Path → L} {content : σ → L → C} {files read written : Set Path}
  {builder : Builder (StateM σ)} {request : Request} {device compilerName : Text}
  {binary output : Path} {s t : σ}

/-! ## Local builders -/

/-- Every action depends on its arguments and on the contents of the files it is given, and changes
those it is to write only.  Two paths with one place name the same file, and nothing is said of
paths outside `files`, nor of the question whether the run is cancelled. -/
structure Builder.IsLocal (place : Path → L) (content : σ → L → C) (files : Set Path)
    (builder : Builder (StateM σ)) : Prop where
  tell : ∀ s notice, Confined content ∅ ∅ s (builder.host.tell notice)
  isPresent : ∀ s, ∀ p ∈ files,
    Confined content (place '' {p}) (place '' ∅) s (builder.host.files.isPresent p)
  remove : ∀ s, ∀ p ∈ files,
    Confined content (place '' ∅) (place '' {p}) s (builder.host.files.remove p)
  write : ∀ s bytes, ∀ p ∈ files,
    Confined content (place '' ∅) (place '' {p}) s (builder.host.files.write p bytes)
  compile : ∀ s device options sources output, (∀ p ∈ output :: sources, p ∈ files) →
    Confined content (place '' {p | p ∈ sources}) (place '' {output}) s
      (builder.services.compile device options sources output)
  compileIntermediate : ∀ s device options source output, (∀ p ∈ [output, source], p ∈ files) →
    Confined content (place '' {source}) (place '' {output}) s
      (builder.services.compileIntermediate device options source output)
  disassemble : ∀ s device lineNumbers, ∀ binary ∈ files,
    Confined content (place '' {binary}) (place '' ∅) s
      (builder.services.disassemble binary device lineNumbers)
  kernelNames : ∀ s, ∀ binary ∈ files,
    Confined content (place '' {binary}) (place '' ∅) s (builder.services.kernelNames binary)
  codeSize : ∀ s kernel, ∀ binary ∈ files,
    Confined content (place '' {binary}) (place '' ∅) s (builder.services.codeSize binary kernel)

/-- Whether the run is cancelled is answered as in the state `s₀` wherever the contents are those of
`s₀` but for some places, and asking changes nothing.  A token that stays as it is may be seen as
one more place. -/
def Builder.IsSteady (content : σ → L → C) (written : Set L) (s₀ : σ)
    (builder : Builder (StateM σ)) : Prop :=
  Confined content writtenᶜ ∅ s₀ builder.host.isCancelled

/-- An action on some files is one on more files. -/
theorem Confined.widen {x : StateM σ α} {read' written' : Set Path}
    (h : Confined content (place '' read') (place '' written') s x)
    (hread : read' ⊆ read ∪ written) (hwritten : written' ⊆ written) :
    Confined content (place '' read) (place '' written) s x := by
  refine h.mono (fun l hl => ?_) (Set.image_mono hwritten)
  obtain ⟨p, hp, rfl⟩ := hl
  exact (hread hp).imp (Set.mem_image_of_mem place) (Set.mem_image_of_mem place)

/-- An action on no files is one on any. -/
theorem Confined.ofNone {x : StateM σ α} (h : Confined content ∅ ∅ s x) :
    Confined content (place '' read) (place '' written) s x :=
  h.mono (fun _ h => h.elim) fun _ h => h.elim

namespace Target

/-! ## Parts of a build -/

/-- The compilation of the sources, once no older binary is in the way. -/
def compileFresh (builder : Builder (StateM σ)) (request : Request) (compilerName : Text)
    (output : Path) : Step (StateM σ) Text := do
  let result ← Step.ask
    (builder.services.compile compilerName request.options request.sources output)
  let result ← Step.ofExcept (result.check compilerTool)
  if !(← builder.host.files.isPresent output) then throw (.noOutput compilerTool output)
  return result.stderr

/-- The cut of a disassembly, once the kernels are known. -/
def cutKernels (builder : Builder (StateM σ)) (binary : Path) (disassembly : Text)
    (kernels : List Text) : Step (StateM σ) Split.Fragments := do
  let fragments ← Extraction.ofCut binary (Split.split disassembly kernels)
  match Extraction.shortage? binary fragments with
  | some notice => builder.host.tell notice
  | none => pure ()
  return fragments

/-- The kernels whose listings an extraction comes to write. -/
def findKernels (builder : Builder (StateM σ)) (request : Request) (device compilerName : Text)
    (binary : Path) : Checked (StateM σ) (List Text) := do
  builder.host.tell (.info ("Extracting ISA for ".toList ++ device ++ "...".toList))
  match ← (Extraction.fragments builder.host builder.services request compilerName binary).run with
  | .error _ => return []
  | .ok fragments => return fragments.byKernel.keys.filter (Extraction.isWanted request)

/-- The kernels whose listings the build of a target comes to write, found by a build up to that
point. -/
def exploring (builder : Builder (StateM σ)) (request : Request) (device : Text) :
    Checked (StateM σ) (List Text) := do
  let compilerName := builder.compilerNames.nameFor device
  match ← compiling builder request device with
  | .error _ => return []
  | .ok words =>
    builder.host.tell (.info ("Compiling for ".toList ++ device ++ "... succeeded".toList))
    let _ ← intermediateOrWarnings builder request device compilerName words
    if !request.outputs.needsListing then return []
    else
      findKernels builder request device compilerName
        (builder.workspace.binary request.outputs.binary device).path

/-- A trimmed kernel is one whose fragment was to be trimmed. -/
theorem kernel_of_reduceAll {entries : List (Text × Text)} {trimmed : List Extraction.TrimmedKernel}
    (h : Ends (Extraction.reduceAll builder.host builder.services binary entries) s trimmed t)
    {k : Extraction.TrimmedKernel} (hk : k ∈ trimmed) : k.kernel ∈ entries.map Prod.fst := by
  induction entries generalizing s t trimmed with
  | nil =>
    obtain ⟨rfl, -⟩ := ends_pure_iff.mp h
    cases hk
  | cons e entries ih =>
    simp only [Extraction.reduceAll, ends_bind_iff] at h
    obtain ⟨_, _, -, rest, _, hrest, h⟩ := h
    obtain ⟨rfl, -⟩ := ends_pure_iff.mp h
    rcases List.mem_cons.mp hk with rfl | hk
    · exact List.mem_cons_self
    · exact List.mem_cons_of_mem _ (ih hrest hk)

section Confinement

variable (hlocal : builder.IsLocal place content files)

include hlocal

theorem confined_tell (notice : Notice) :
    Confined content (place '' read) (place '' written) s
      (liftM (builder.host.tell notice) : Checked (StateM σ) Unit).run :=
  confined_run_lift (hlocal.tell s notice).ofNone

theorem confined_step_tell (notice : Notice) :
    Confined content (place '' read) (place '' written) s
      (liftM (builder.host.tell notice) : Step (StateM σ) Unit).run.run :=
  confined_step_lift (confined_tell hlocal notice)

variable (hfiles : read ∪ written ⊆ files)

include hfiles

/-! ## Compiling -/

theorem confined_compileFresh (hread : {p | p ∈ request.sources} ⊆ read)
    (houtput : output ∈ written) :
    Confined content (place '' read) (place '' written) s
      (compileFresh builder request compilerName output).run.run := by
  have hmem : ∀ p ∈ output :: request.sources, p ∈ files := fun p hp =>
    (List.mem_cons.mp hp).elim (fun h => hfiles (.inr (h ▸ houtput))) fun h => hfiles (.inl (hread h))
  have hcompile := (hlocal.compile s compilerName request.options _ _ hmem).widen
    (hread.trans Set.subset_union_left) (Set.singleton_subset_iff.mpr houtput)
  refine confined_step_bind (confined_step_ask hcompile) fun _ _ _ => ?_
  refine confined_step_bind (confined_step_ofExcept _) fun _ t _ => ?_
  have hpresent : Confined content (place '' read) (place '' written) t
      (builder.host.files.isPresent output) :=
    (hlocal.isPresent t output (hfiles (.inr houtput))).widen
      (Set.singleton_subset_iff.mpr (.inr houtput)) (Set.empty_subset written)
  refine confined_step_bind (confined_step_lift (confined_run_lift hpresent)) fun isPresent _ _ => ?_
  cases isPresent with
  | true => exact confined_step_pure _
  | false => exact confined_step_bind (confined_step_throw _) fun _ _ _ => confined_step_pure _

theorem confined_binary (hread : {p | p ∈ request.sources} ⊆ read) (houtput : output ∈ written) :
    Confined content (place '' read) (place '' written) s
      (Target.binary builder request compilerName output).run.run := by
  have hremove : Confined content (place '' read) (place '' written) s
      (builder.host.files.remove output) :=
    (hlocal.remove s output (hfiles (.inr houtput))).widen (Set.empty_subset _)
      (Set.singleton_subset_iff.mpr houtput)
  refine confined_step_bind (confined_step_lift (confined_run_lift hremove)) fun removed t _ => ?_
  have hrest (t : σ) : Confined content (place '' read) (place '' written) t
      (compileFresh builder request compilerName output).run.run :=
    confined_compileFresh hlocal hfiles hread houtput
  cases removed with
  | ok => exact hrest t
  | error error =>
    dsimp only
    split
    · exact confined_step_bind (confined_step_throw _) fun _ t _ => hrest t
    · exact hrest t

/-! ## Intermediate code -/

theorem confined_intermediates {options : Options} {name : Path → Path} {sources : List Path}
    (hread : ∀ p ∈ sources, p ∈ read) (hname : ∀ p ∈ sources, name p ∈ written) :
    Confined content (place '' read) (place '' written) s
      (intermediates builder options device compilerName name sources).run.run := by
  induction sources generalizing s with
  | nil => exact confined_step_pure _
  | cons source sources ih =>
    have hsource := hread source List.mem_cons_self
    have houtput := hname source List.mem_cons_self
    refine confined_step_bind (confined_step_tell hlocal _) fun _ t _ => ?_
    have hmem : ∀ p ∈ [name source, source], p ∈ files := by
      simpa using ⟨hfiles (.inr houtput), hfiles (.inl hsource)⟩
    have hcompile := (hlocal.compileIntermediate t compilerName options _ _ hmem).widen
      (Set.singleton_subset_iff.mpr (.inl hsource)) (Set.singleton_subset_iff.mpr houtput)
    refine confined_step_bind (confined_step_ask hcompile) fun _ _ _ => ?_
    refine confined_step_bind (confined_step_ofExcept _) fun _ _ _ => ?_
    exact ih (fun p hp => hread p (List.mem_cons_of_mem _ hp))
      fun p hp => hname p (List.mem_cons_of_mem _ hp)

theorem confined_intermediateOrWarnings {words : Text}
    (hread : {p | p ∈ request.sources} ⊆ read)
    (hname : ∀ base ∈ request.outputs.intermediate, ∀ p ∈ request.sources,
      intermediateName base device request.sources p ∈ written) :
    Confined content (place '' read) (place '' written) s
      (intermediateOrWarnings builder request device compilerName words).run := by
  rw [intermediateOrWarnings]
  split
  · next base hbase =>
    refine confined_run_bind (confined_intermediates hlocal hfiles (fun p hp => hread hp)
      (hname base hbase)) fun result _ _ => ?_
    cases result with
    | ok => exact confined_run_pure _
    | error fault => exact confined_run_bind (confined_tell hlocal _) fun _ _ _ => confined_run_pure _
  · dsimp only
    split
    · split
      · exact confined_run_bind (confined_tell hlocal _) fun _ _ _ => confined_run_pure _
      · exact confined_run_pure _
    · exact confined_run_pure _

/-! ## Listings -/

omit hfiles in
theorem confined_cutKernels {disassembly : Text} {kernels : List Text} :
    Confined content (place '' read) (place '' written) s
      (cutKernels builder binary disassembly kernels).run.run := by
  have hcut (result : Except Split.CutFailure Split.Fragments) :
      Confined content (place '' read) (place '' written) s
        (Extraction.ofCut binary result : Step (StateM σ) _).run.run := by
    rcases result with (_ | _) | fragments
    · exact confined_step_throw _
    · exact confined_step_ofChecked _
    · exact confined_step_pure _
  refine confined_step_bind (hcut _) fun fragments _ _ => ?_
  cases Extraction.shortage? binary fragments with
  | none => exact confined_step_pure _
  | some notice =>
    exact confined_step_bind (confined_step_tell hlocal _) fun _ _ _ => confined_step_pure _

theorem confined_fragments (hbinary : binary ∈ written) :
    Confined content (place '' read) (place '' written) s
      (Extraction.fragments builder.host builder.services request compilerName binary).run.run := by
  have hmem : binary ∈ files := hfiles (.inr hbinary)
  have hread : {binary} ⊆ read ∪ written := Set.singleton_subset_iff.mpr (.inr hbinary)
  refine confined_step_bind (confined_step_ask ((hlocal.disassemble _ _ _ _ hmem).widen hread
    (Set.empty_subset _))) fun _ _ _ => ?_
  refine confined_step_bind (confined_step_ofExcept _) fun output _ _ => ?_
  refine confined_step_bind (confined_step_ask ((hlocal.kernelNames _ _ hmem).widen hread
    (Set.empty_subset _))) fun kernels t _ => ?_
  have hrest (t : σ) : Confined content (place '' read) (place '' written) t
      (cutKernels builder binary output.stdout kernels).run.run := confined_cutKernels hlocal
  cases request.kernel with
  | none => exact hrest t
  | some kernel =>
    dsimp only
    split
    · exact confined_step_bind (confined_step_throw _) fun _ t _ => hrest t
    · exact hrest t

theorem confined_trim {kernel fragment : Text} (hbinary : binary ∈ written) :
    Confined content (place '' read) (place '' written) s
      (Extraction.trim builder.host builder.services binary kernel fragment).run := by
  have hsize : Confined content (place '' read) (place '' written) s
      (builder.services.codeSize binary kernel) :=
    (hlocal.codeSize s kernel binary (hfiles (.inr hbinary))).widen
      (Set.singleton_subset_iff.mpr (.inr hbinary)) (Set.empty_subset written)
  refine confined_run_bind (confined_run_lift hsize) fun size _ _ => ?_
  have htold {notice : Notice} {trimmed : Extraction.Trimmed} {t : σ} :
      Confined content (place '' read) (place '' written) t (do
        builder.host.tell notice
        return trimmed : Checked (StateM σ) Extraction.Trimmed).run :=
    confined_run_bind (confined_tell hlocal _) fun _ _ _ => confined_run_pure _
  rcases size with fault | _ | size
  · exact htold
  · exact htold
  · refine confined_run_bind (Confined.pure _) fun reduced _ _ => ?_
    cases reduced with
    | unreadable => exact htold
    | unchanged => exact confined_run_pure _
    | reduced => exact confined_run_pure _

theorem confined_reduceAll {entries : List (Text × Text)} (hbinary : binary ∈ written) :
    Confined content (place '' read) (place '' written) s
      (Extraction.reduceAll builder.host builder.services binary entries).run := by
  induction entries generalizing s with
  | nil => exact confined_run_pure _
  | cons e entries ih =>
    refine confined_run_bind (confined_trim hlocal hfiles hbinary) fun _ _ _ => ?_
    exact confined_run_bind ih fun _ _ _ => confined_run_pure _

theorem confined_writeText {p : Path} {text : Text} (hp : p ∈ written) :
    Confined content (place '' read) (place '' written) s
      (builder.host.files.writeText p text) := by
  have hwrite : Confined content (place '' read) (place '' written) s
      (builder.host.files.write p (Utf8.encode text)) :=
    (hlocal.write s (Utf8.encode text) p (hfiles (.inr hp))).widen (Set.empty_subset _)
      (Set.singleton_subset_iff.mpr hp)
  refine hwrite.bind ?_
  split
  · exact Confined.pure _
  · exact Confined.pure _

theorem confined_writeAll {listing : Text → Placement} {kernels : List Extraction.TrimmedKernel}
    (hlisting : ∀ k ∈ kernels, (listing k.kernel).path ∈ written) :
    Confined content (place '' read) (place '' written) s
      (Extraction.writeAll builder.host listing kernels) := by
  induction kernels generalizing s with
  | nil => exact Confined.pure _
  | cons k kernels ih =>
    have hrest (t : σ) := ih (s := t) fun k hk => hlisting k (List.mem_cons_of_mem _ hk)
    rw [Extraction.writeAll]
    split
    · exact (hrest s).bind (Confined.pure _)
    · refine (confined_writeText hlocal hfiles (hlisting k List.mem_cons_self)).bind ?_
      split
      · exact Confined.pure _
      · exact (hrest _).bind (Confined.pure _)

theorem confined_extract {listing : Text → Placement} (hbinary : binary ∈ written)
    (hlisting : ∀ kernels t, Ends (findKernels builder request device compilerName binary) s
      kernels t → ∀ kernel ∈ kernels, (listing kernel).path ∈ written) :
    Confined content (place '' read) (place '' written) s
      (Extraction.extract builder.host builder.services request device compilerName binary
        listing).run := by
  refine confined_run_bind (confined_tell hlocal _) fun _ u htell => ?_
  refine confined_run_bind (confined_fragments hlocal hfiles hbinary) fun result v hresult => ?_
  cases result with
  | error fault => exact confined_run_pure _
  | ok fragments =>
    -- only here it is known which listings will be written
    have hfound := hlisting _ v (ends_bind_iff.mpr ⟨_, u, htell,
      ends_bind_iff.mpr ⟨_, v, hresult, ends_pure_iff.mpr ⟨rfl, rfl⟩⟩⟩)
    refine confined_run_bind (confined_reduceAll hlocal hfiles hbinary) fun trimmed _ htrimmed => ?_
    have hwritten : ∀ k ∈ trimmed.filter fun k => Extraction.isWanted request k.kernel,
        (listing k.kernel).path ∈ written := fun k hk =>
      have ⟨hmem, hwanted⟩ := List.mem_filter.mp hk
      hfound _ (List.mem_filter.mpr ⟨kernel_of_reduceAll htrimmed hmem, hwanted⟩)
    refine confined_run_bind (confined_run_lift (confined_writeAll hlocal hfiles hwritten))
      fun files _ _ => ?_
    dsimp only
    split
    · exact confined_run_bind (confined_tell hlocal _) fun _ _ _ => confined_run_pure _
    · exact confined_run_pure _

theorem confined_listings {binary : Placement} (hbinary : binary.path ∈ written)
    (hlisting : request.outputs.needsListing → ∀ kernels t,
      Ends (findKernels builder request device compilerName binary.path) s kernels t →
        ∀ kernel ∈ kernels,
          (builder.workspace.listing request.outputs.listing device kernel).path ∈ written) :
    Confined content (place '' read) (place '' written) s
      (listings builder request device compilerName binary).run := by
  rw [listings]
  split
  · exact confined_run_pure _
  · next hneeds =>
    have hextract := confined_extract hlocal hfiles hbinary (hlisting (by simpa using hneeds))
    refine confined_run_bind hextract fun extraction _ _ => ?_
    cases extraction.fault with
    | none => exact confined_run_pure _
    | some fault =>
      exact confined_run_bind (confined_tell hlocal _) fun _ _ _ => confined_run_pure _

/-! ## The whole build -/

/-- **A build reads the sources and writes the files of its target.** -/
theorem confined_build (hread : {p | p ∈ request.sources} ⊆ read)
    (hbinary : (builder.workspace.binary request.outputs.binary device).path ∈ written)
    (hname : ∀ base ∈ request.outputs.intermediate, ∀ p ∈ request.sources,
      intermediateName base device request.sources p ∈ written)
    (hlisting : ∀ kernels t, Ends (exploring builder request device) s kernels t →
      ∀ kernel ∈ kernels,
        (builder.workspace.listing request.outputs.listing device kernel).path ∈ written) :
    Confined content (place '' read) (place '' written) s
      (build builder request device).run := by
  refine confined_run_bind (confined_tell hlocal _) fun _ t htell => ?_
  refine confined_run_bind (confined_binary hlocal hfiles hread hbinary) fun result u hresult => ?_
  have hcompiling : Ends (compiling builder request device) s result u :=
    ends_bind_iff.mpr ⟨_, t, htell, hresult⟩
  cases result with
  | error fault => exact confined_run_bind (confined_tell hlocal _) fun _ _ _ => confined_run_pure _
  | ok words =>
    refine confined_run_bind (confined_tell hlocal _) fun _ v htold => ?_
    refine confined_run_bind (confined_intermediateOrWarnings hlocal hfiles hread hname)
      fun first w hfirst => ?_
    have hfind (hneeds : request.outputs.needsListing) kernels x hkernels :=
      hlisting kernels x (ends_bind_iff.mpr ⟨_, u, hcompiling, ends_bind_iff.mpr ⟨_, v, htold,
        ends_bind_iff.mpr ⟨first, w, hfirst, by
          rw [hneeds]
          exact hkernels⟩⟩⟩)
    refine confined_run_bind (confined_listings hlocal hfiles hbinary hfind) fun _ _ _ => ?_
    exact confined_run_pure _

end Confinement

/-! ## The files of a target -/

/-- The kernels whose listings the build of a target comes to write, if it starts in the state
`s`. -/
def kernelsOf (builder : Builder (StateM σ)) (request : Request) (device : Text) (s : σ) :
    List Text :=
  match ((exploring builder request device).run.run s : Except Overflow (List Text) × σ).1 with
  | .ok kernels => kernels
  | .error _ => []

/-- The files that the build of a target writes, if it starts in the state `s`: its binary, its
intermediate code and the listings of its kernels. -/
def outputsOf (builder : Builder (StateM σ)) (request : Request) (device : Text) (s : σ) :
    List Path :=
  (builder.workspace.binary request.outputs.binary device).path ::
    (request.outputs.intermediate.toList.flatMap fun base =>
      request.sources.map (intermediateName base device request.sources)) ++
    (kernelsOf builder request device s).map fun kernel =>
      (builder.workspace.listing request.outputs.listing device kernel).path

/-- **A build reads the sources, writes the files of its target, and touches nothing else.** -/
theorem confined_outputsOf (hlocal : builder.IsLocal place content files)
    (hfiles : ∀ p ∈ outputsOf builder request device s ++ request.sources, p ∈ files) :
    Confined content (place '' {p | p ∈ request.sources})
      (place '' {p | p ∈ outputsOf builder request device s}) s
      (build builder request device).run := by
  refine confined_build hlocal ?_ Set.Subset.rfl ?_ ?_ ?_
  · rintro p (hp | hp)
    · exact hfiles p (List.mem_append_right _ hp)
    · exact hfiles p (List.mem_append_left _ hp)
  · exact List.mem_append_left _ List.mem_cons_self
  · intro base hbase p hp
    refine List.mem_append_left _ (List.mem_cons_of_mem _ (List.mem_flatMap.mpr ⟨base, ?_, ?_⟩))
    · exact Option.mem_toList.mpr hbase
    · exact List.mem_map_of_mem hp
  · intro kernels t h kernel hkernel
    have heq : kernelsOf builder request device s = kernels := by rw [kernelsOf, h]
    exact List.mem_append_right _ (heq ▸ List.mem_map_of_mem hkernel)

end Target

end KernelIsa
