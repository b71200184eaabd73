import KernelIsa.Proofs.Artifact.RunPaths
import KernelIsa.Proofs.Text.Tokens

/-!
# Proofs/Artifact/DistinctNames — the file of a device and a kernel tells both

What stands between two fixed stretches of a path, in front of a dot and without slashes, is told by
the path's components, whatever the stretches are: it decides one segment of the path, and the
others stay as they are (`Path.eq_of_components`).  A file's name has its device and its kernel in
such a place (`outputName_eq_join`, `Workspace.temporaryName_eq_join`), and dashes leave them
legible where only one of the two may have any (`pairPart_inj`).  So different pairs have different
files, and so have a temporary binary and a temporary listing (`names_distinct`).
-/

namespace KernelIsa

namespace Path

variable {name name' start start' front behind : Bytes} {p q : Path}

/-! ## Segments in a row of slashes -/

/-- A stretch in front adds whole pieces and the start of the first one. -/
theorem exists_pieces_append_left (front : Bytes) : ∃ before first, slash ∉ first ∧
    ∀ bytes, pieces (· == slash) (front ++ bytes) = before ++ pieces (· == slash) (first ++ bytes) := by
  by_cases hslash : slash ∈ front.reverse
  · obtain ⟨first, before, hreverse, hfirst⟩ := List.eq_append_cons_of_mem hslash
    have hfront : front = before.reverse ++ slash :: first.reverse := by
      rw [← List.reverse_reverse front, hreverse]
      simp
    refine ⟨pieces (· == slash) before.reverse, first.reverse, by simpa using hfirst, fun bytes => ?_⟩
    rw [hfront, List.append_assoc, List.cons_append]
    exact pieces_append_cons rfl _ _
  · exact ⟨[], front, by simpa using hslash, fun bytes => rfl⟩

/-- A stretch behind adds the end of the last piece and whole pieces. -/
theorem exists_pieces_append_right (behind : Bytes) : ∃ last after,
    ∀ bytes, slash ∉ bytes → pieces (· == slash) (bytes ++ behind) = (bytes ++ last) :: after := by
  by_cases hslash : slash ∈ behind
  · obtain ⟨last, rest, rfl, hlast⟩ := List.eq_append_cons_of_mem hslash
    refine ⟨last, pieces (· == slash) rest, fun bytes hbytes => ?_⟩
    have hnot : slash ∉ bytes ++ last := by simp [hbytes, hlast]
    rw [← List.append_assoc, pieces_append_cons rfl, pieces_of_slash_notMem hnot]
    rfl
  · refine ⟨behind, [], fun bytes hbytes => pieces_of_slash_notMem ?_⟩
    simp [hbytes, hslash]

/-! ## Steps -/

/-- The steps that segments stand for. -/
abbrev steps (segments : List Bytes) : List Component := stepsOf .plain segments

theorem steps_append (segments segments' : List Bytes) :
    steps (segments ++ segments') = steps segments ++ steps segments' := by
  simp [steps, stepsOf, Lead.components]

/-- Segments that are not empty are told by their steps. -/
theorem steps_singleton_inj (hne : name ≠ []) (hne' : name' ≠ [])
    (h : steps [name] = steps [name']) : name = name' := by
  have hidle {s : Bytes} (hs : s ≠ []) (hi : isIdle s = true) : s = [dot] := by
    simpa [isIdle, hs] using hi
  simp only [steps, stepsOf, Lead.components, List.nil_append] at h
  cases hi : isIdle name <;> cases hi' : isIdle name' <;> simp [hi, hi'] at h
  · rw [Component.ofSegment, Component.ofSegment] at h
    split at h <;> split at h
    · next hup hup' => rw [hup, hup']
    · cases h
    · cases h
    · exact Component.name.inj h
  · rw [hidle hne hi, hidle hne' hi']

/-- A segment of more than two bytes is a step of its own. -/
theorem steps_cons_of_long (hlong : 2 < name.length) (segments : List Bytes) :
    steps (name :: segments) = .name name :: steps segments := by
  have hlength {s : Bytes} (hs : s.length ≤ 2) : name ≠ s := by
    rintro rfl
    exact Nat.not_lt.mpr hs hlong
  have hidle : isIdle name = false := by
    rw [isIdle, Bool.or_eq_false_iff, List.isEmpty_eq_false_iff, beq_eq_false_iff_ne]
    exact ⟨hlength (Nat.zero_le 2), hlength (by decide : [dot].length ≤ 2)⟩
  have hup : Component.ofSegment name = .name name :=
    if_neg (hlength (by decide : [dot, dot].length ≤ 2))
  simp only [steps, stepsOf, Lead.components, List.nil_append]
  rw [List.filter_cons_of_pos (by simp [hidle]), List.map_cons, hup]

/-- The segments behind the lead say what all pieces say. -/
theorem steps_segments (p : Path) : steps p.segments = steps (pieces (· == slash) p.bytes) := by
  have hdrop (piece : Bytes) (h : isIdle piece = true) (segments : List Bytes) :
      steps (piece :: segments) = steps segments := by
    simp [steps, stepsOf, h]
  obtain ⟨bytes⟩ := p
  rw [segments, lead]
  split
  · next hroot =>
    obtain ⟨rest, rfl⟩ := List.head?_eq_some_iff.mp hroot
    exact (hdrop [] rfl _).symm
  · split
    · next hhere =>
      obtain ⟨hdot, hrest⟩ := Bool.and_eq_true_iff.mp hhere
      obtain ⟨rest, rfl⟩ := List.head?_eq_some_iff.mp (of_decide_eq_true hdot)
      cases rest with
      | nil => rfl
      | cons b rest =>
        obtain rfl : b = slash := by simpa using hrest
        have hpieces : pieces (· == slash) (dot :: slash :: rest)
            = [dot] :: pieces (· == slash) rest :=
          pieces_append_cons (p := (· == slash)) rfl [dot] rest
        exact (hdrop [] rfl _).trans ((hdrop [dot] rfl _).symm.trans (congrArg steps hpieces.symm))
    · rfl

/-- **Paths with the same components have the same steps between their slashes.** -/
theorem steps_pieces_congr (h : p.components = q.components) :
    steps (pieces (· == slash) p.bytes) = steps (pieces (· == slash) q.bytes) := by
  have hlead (opening : Lead) : opening.components.filter (fun c => 2 ≤ c.rank) = [] := by
    cases opening <;> rfl
  have hstep (segments : List Bytes) :
      (steps segments).filter (fun c => 2 ≤ c.rank) = steps segments := by
    refine List.filter_eq_self.mpr fun c hc => ?_
    simp only [steps, stepsOf, Lead.components, List.nil_append] at hc
    obtain ⟨s, -, rfl⟩ := List.mem_map.mp hc
    rw [Component.ofSegment]
    split <;> rfl
  have hread (p : Path) : p.components.filter (fun c => 2 ≤ c.rank)
      = steps (pieces (· == slash) p.bytes) := by
    rw [← steps_segments, ← hstep p.segments, components_eq, stepsOf, List.filter_append, hlead]
    rfl
  rw [← hread p, ← hread q, h]

/-- **What stands in one segment in front of a dot is told by the components.** -/
theorem eq_of_components (hname : slash ∉ name) (hname' : slash ∉ name')
    (h : (⟨front ++ (name ++ dot :: behind)⟩ : Path).components
      = (⟨front ++ (name' ++ dot :: behind)⟩ : Path).components) : name = name' := by
  obtain ⟨before, first, hfirst, hleft⟩ := exists_pieces_append_left front
  obtain ⟨last, after, hright⟩ := exists_pieces_append_right behind
  have hpieces (name : Bytes) (hname : slash ∉ name) :
      pieces (· == slash) (front ++ (name ++ dot :: behind))
        = before ++ ([first ++ name ++ [dot] ++ last] ++ after) := by
    have hnot : slash ∉ first ++ name ++ [dot] := by
      simp only [List.mem_append, List.mem_singleton, not_or]
      exact ⟨⟨hfirst, hname⟩, by decide⟩
    have hcut : first ++ (name ++ dot :: behind) = first ++ name ++ [dot] ++ behind := by simp
    rw [hleft, hcut, hright _ hnot]
    rfl
  have hsteps := steps_pieces_congr h
  dsimp only at hsteps
  rw [hpieces name hname, hpieces name' hname', steps_append, steps_append, steps_append,
    steps_append] at hsteps
  have hsegment := List.append_cancel_right (List.append_cancel_left hsteps)
  have heq := steps_singleton_inj (by simp) (by simp) hsegment
  simp only [List.append_assoc] at heq
  exact List.append_cancel_right (List.append_cancel_left heq)

/-- **Stretches of one length that start a name are told by the components.** -/
theorem start_eq_of_components {behind' : Bytes} (hstart : slash ∉ start) (hstart' : slash ∉ start')
    (hlength : start.length = start'.length) (hlong : 2 < start.length)
    (h : (⟨front ++ (start ++ behind)⟩ : Path).components
      = (⟨front ++ (start' ++ behind')⟩ : Path).components) : start = start' := by
  obtain ⟨before, first, hfirst, hleft⟩ := exists_pieces_append_left front
  have hpieces (start behind : Bytes) (hstart : slash ∉ start) (hlong : 2 < start.length) :
      ∃ last segments, steps (pieces (· == slash) (front ++ (start ++ behind)))
        = steps before ++ .name (first ++ start ++ last) :: segments := by
    obtain ⟨last, after, hright⟩ := exists_pieces_append_right behind
    have hnot : slash ∉ first ++ start := by simp [hfirst, hstart]
    have hsegment : 2 < (first ++ start ++ last).length := by
      simp only [List.length_append]
      omega
    refine ⟨last, steps after, ?_⟩
    rw [hleft, ← List.append_assoc, hright _ hnot, steps_append, steps_cons_of_long hsegment]
  obtain ⟨last, segments, hread⟩ := hpieces start behind hstart hlong
  obtain ⟨last', segments', hread'⟩ := hpieces start' behind' hstart' (hlength ▸ hlong)
  have hsteps := steps_pieces_congr h
  dsimp only at hsteps
  rw [hread, hread'] at hsteps
  have hname := Component.name.inj (List.cons.inj (List.append_cancel_left hsteps)).1
  rw [List.append_assoc, List.append_assoc] at hname
  exact (List.append_inj (List.append_cancel_left hname) hlength).1

/-! ## Behind a directory -/

/-- Joining puts one stretch in front of all names that start alike. -/
theorem exists_join_append (directory : Path) (front : Bytes) : ∃ bytes, ∀ rest,
    (front = [] → rest.head? ≠ some slash) → directory.join ⟨front ++ rest⟩ = ⟨bytes ++ rest⟩ := by
  by_cases habsolute : front.head? = some slash
  · refine ⟨front, fun rest _ => ?_⟩
    have hroot : isAbsolute ⟨front ++ rest⟩ = true := by
      rw [isAbsolute_iff, List.head?_append, habsolute]
      rfl
    rw [join, if_pos hroot]
  · refine ⟨directory.front ++ front, fun rest hrest => ?_⟩
    have hroot : isAbsolute ⟨front ++ rest⟩ = false := by
      rw [← Bool.not_eq_true, isAbsolute_iff]
      cases front with
      | nil => exact hrest rfl
      | cons b front => exact habsolute
    rw [join, hroot, Path.front]
    simp only [Bool.false_eq_true, if_false]
    split <;> simp

end Path

/-! ## The part of a device and a kernel -/

namespace Naming

variable {device device' : Text} {kernel kernel' : Option Text}

/-- A device and a kernel, if there is one, in a single segment; the kernel is not empty. -/
structure IsPair (device : Text) (kernel : Option Text) : Prop where
  device : '/' ∉ device
  kernel : ∀ k ∈ kernel, '/' ∉ k ∧ k ≠ []

/-- Two pairs that dashes leave legible: the devices have none, or both have a kernel without any,
or neither has a kernel. -/
def Legible (device device' : Text) (kernel kernel' : Option Text) : Prop :=
  ('-' ∉ device ∧ '-' ∉ device') ∨ (∃ k ∈ kernel, ∃ k' ∈ kernel', '-' ∉ k ∧ '-' ∉ k') ∨
    (kernel = none ∧ kernel' = none)

theorem Legible.symm (h : Legible device device' kernel kernel') :
    Legible device' device kernel' kernel := by
  rcases h with h | ⟨k, hk, k', hk', h⟩ | h
  · exact .inl h.symm
  · exact .inr (.inl ⟨k', hk', k, hk, h.symm⟩)
  · exact .inr (.inr h.symm)

theorem IsPair.slash_notMem (h : IsPair device kernel) : '/' ∉ pairPart device kernel := by
  cases kernel with
  | none =>
    rw [pairPart_none]
    exact h.device
  | some k =>
    obtain ⟨hslash, hne⟩ := h.kernel k rfl
    rw [pairPart_some hne]
    simp [h.device, hslash]

/-- A device alone is not one with a kernel. -/
theorem pairPart_none_ne {k : Text} (hk : k ≠ []) (h : Legible device device' none (some k)) :
    pairPart device none ≠ pairPart device' (some k) := by
  rw [pairPart_none, pairPart_some hk]
  rintro rfl
  rcases h with h | ⟨_, hnone, -⟩ | h
  · exact h.1 (List.mem_append_right _ List.mem_cons_self)
  · cases hnone
  · cases h.2

/-- **Legible pairs are told by their part of a name.** -/
theorem pairPart_inj (hp : IsPair device kernel) (hp' : IsPair device' kernel')
    (hlegible : Legible device device' kernel kernel')
    (h : pairPart device kernel = pairPart device' kernel') : device = device' ∧ kernel = kernel' := by
  cases kernel with
  | none =>
    cases kernel' with
    | none => exact ⟨by rwa [pairPart_none, pairPart_none] at h, rfl⟩
    | some k' => exact absurd h (pairPart_none_ne (hp'.kernel k' rfl).2 hlegible)
  | some k =>
    cases kernel' with
    | none => exact absurd h.symm (pairPart_none_ne (hp.kernel k rfl).2 hlegible.symm)
    | some k' =>
      rw [pairPart_some (hp.kernel k rfl).2, pairPart_some (hp'.kernel k' rfl).2] at h
      rcases hlegible with ⟨hdevice, hdevice'⟩ | ⟨l, hl, l', hl', hkernel⟩ | hnone
      · -- the first dash ends the device
        have hnot {t : Text} (ht : '-' ∉ t) : ∀ c ∈ t, decide (c ≠ '-') = true := fun c hc =>
          decide_eq_true fun heq => ht (heq ▸ hc)
        obtain ⟨hdevices, -, hkernels⟩ := Text.append_cons_inj (hnot hdevice) (hnot hdevice')
          (by decide) (by decide) h
        exact ⟨hdevices, congrArg some hkernels⟩
      · -- the last dash starts the kernel
        obtain rfl := Option.some.inj hl
        obtain rfl := Option.some.inj hl'
        obtain ⟨hdevices, hkernels⟩ := eq_of_append_cons h hkernel.1 hkernel.2
        exact ⟨hdevices, congrArg some hkernels⟩
      · cases hnone.1

/-! ## Files of different pairs -/

theorem head?_append_ne {name behind : Bytes} (hname : Path.slash ∉ name)
    (hbehind : behind.head? ≠ some Path.slash) : (name ++ behind).head? ≠ some Path.slash := by
  cases name with
  | nil => exact hbehind
  | cons b name =>
    intro h
    obtain rfl : b = Path.slash := Option.some.inj h
    exact hname List.mem_cons_self

/-- **A part of a name in front of a dot is told by the path**, whatever stands around. -/
theorem part_eq_of_components {directory : Path} {front part part' extension : Text}
    (hpart : '/' ∉ part) (hpart' : '/' ∉ part')
    (h : (directory.join (Path.ofText (front ++ (part ++ '.' :: extension)))).components
      = (directory.join (Path.ofText (front ++ (part' ++ '.' :: extension)))).components) :
    part = part' := by
  obtain ⟨bytes, hjoin⟩ := Path.exists_join_append directory (Utf8.encode front)
  have hread (part : Text) (hpart : '/' ∉ part) :
      directory.join (Path.ofText (front ++ (part ++ '.' :: extension)))
        = ⟨bytes ++ (Utf8.encode part ++ Path.dot :: Utf8.encode extension)⟩ := by
    rw [Path.ofText, Utf8.encode_append, Utf8.encode_append]
    exact hjoin _ fun _ => head?_append_ne (slash_notMem_encode hpart) fun hdot =>
      absurd (Option.some.inj hdot) (by decide)
  rw [hread part hpart, hread part' hpart'] at h
  exact Utf8.encode_injective
    (Path.eq_of_components (slash_notMem_encode hpart) (slash_notMem_encode hpart') h)

/-- The name of a temporary file has the device and the kernel in front of its extension. -/
theorem temporaryName_eq_join (workspace : Workspace) (family device : Text)
    (kernel : Option Text) (extension : Text) :
    workspace.temporaryName family device kernel extension
      = workspace.directory.join (Path.ofText (family ++ '-' :: (workspace.tag ++ ['-']) ++
          (pairPart device kernel ++ '.' :: extension))) := by
  have hname : hyphenated ([family, workspace.tag, device] ++ kernelPart kernel)
      = family ++ '-' :: (workspace.tag ++ ['-']) ++ pairPart device kernel := by
    rw [pairPart, List.cons_append, List.cons_append, List.cons_append, List.nil_append,
      hyphenated_cons, hyphenated_cons]
    simp
  rw [Workspace.temporaryName, hname, List.append_assoc _ _ ('.' :: extension)]

/-- Names of temporary files whose families are as long tell the family. -/
theorem family_eq_of_components {directory : Path} {tag tag' family family' device device' : Text}
    {extension extension' : Text} (hfamily : '/' ∉ family) (hfamily' : '/' ∉ family')
    (hlength : (Utf8.encode family).length = (Utf8.encode family').length)
    (hlong : 2 < (Utf8.encode family).length)
    (h : (Workspace.temporaryName ⟨directory, tag⟩ family device kernel extension).components
      = (Workspace.temporaryName ⟨directory, tag'⟩ family' device' kernel' extension').components) :
    family = family' := by
  obtain ⟨bytes, hjoin⟩ := Path.exists_join_append directory []
  have hread (tag family device extension : Text) (kernel : Option Text) (hfamily : '/' ∉ family) :
      ∃ behind, Workspace.temporaryName ⟨directory, tag⟩ family device kernel extension
        = ⟨bytes ++ (Utf8.encode family ++ behind)⟩ := by
    rw [temporaryName_eq_join, List.append_assoc, Path.ofText, Utf8.encode_append]
    exact ⟨_, hjoin _ fun _ => head?_append_ne (slash_notMem_encode hfamily) fun hdash =>
      absurd (Option.some.inj hdash) (by decide)⟩
  obtain ⟨behind, hbehind⟩ := hread tag family device extension kernel hfamily
  obtain ⟨behind', hbehind'⟩ := hread tag' family' device' extension' kernel' hfamily'
  rw [hbehind, hbehind'] at h
  exact Utf8.encode_injective (Path.start_eq_of_components (slash_notMem_encode hfamily)
    (slash_notMem_encode hfamily') hlength hlong h)

end Naming

/-- **Different pairs have different files**: of two legible pairs of a device and a kernel, the
files beside one base name are the same only if the pairs are, and so are the temporary files of one
family; and no temporary binary is a temporary listing, whatever the devices, the kernel and the
tags of the runs. -/
theorem names_distinct :
    (∀ (device device' : Text) (kernel kernel' : Option Text), Naming.IsPair device kernel →
      Naming.IsPair device' kernel' → Naming.Legible device device' kernel kernel' →
      (∀ (base : Path) (extension : Text), (outputName base extension device kernel).components
          = (outputName base extension device' kernel').components →
        device = device' ∧ kernel = kernel') ∧
      (∀ (workspace : Workspace) (family extension : Text),
        (workspace.temporaryName family device kernel extension).components
          = (workspace.temporaryName family device' kernel' extension).components →
        device = device' ∧ kernel = kernel')) ∧
    ∀ (directory : Path) (tag tag' device device' kernel : Text),
      (Workspace.binary ⟨directory, tag⟩ none device).path.components
        ≠ (Workspace.listing ⟨directory, tag'⟩ none device' kernel).path.components := by
  refine ⟨fun device device' kernel kernel' hp hp' hlegible => ⟨fun base extension h => ?_,
    fun workspace family extension h => ?_⟩, fun directory tag tag' device device' kernel h => ?_⟩
  · rw [Naming.outputName_eq_join, Naming.outputName_eq_join] at h
    exact Naming.pairPart_inj hp hp' hlegible
      (Naming.part_eq_of_components hp.slash_notMem hp'.slash_notMem h)
  · rw [Naming.temporaryName_eq_join, Naming.temporaryName_eq_join] at h
    exact Naming.pairPart_inj hp hp' hlegible
      (Naming.part_eq_of_components hp.slash_notMem hp'.slash_notMem h)
  · have hfamilies : Workspace.binaryFamily = Workspace.listingFamily :=
      Naming.family_eq_of_components (by decide) (by decide) (by decide) (by decide) h
    exact absurd hfamilies (by decide)

/-- A device alone and the same device with a kernel that has a dash and a dot have different files,
also beside a base name that is hidden or goes up. -/
theorem names_distinct_dashedKernel :
    Naming.Legible "gfx906".toList "gfx906".toList none (some "a.b-c".toList) ∧
    (outputName (Path.ofText "out/.k".toList) "isa".toList "gfx906".toList none).components
      ≠ (outputName (Path.ofText "out/.k".toList) "isa".toList "gfx906".toList
          (some "a.b-c".toList)).components ∧
    (outputName (Path.ofText "..".toList) [] "gfx906".toList none).components
      ≠ (outputName (Path.ofText "..".toList) [] "gfx906".toList
          (some "a.b-c".toList)).components := by
  have hlegible : Naming.Legible "gfx906".toList "gfx906".toList none (some "a.b-c".toList) :=
    .inl (by decide)
  have hpair : Naming.IsPair "gfx906".toList none := ⟨by decide, nofun⟩
  have hpair' : Naming.IsPair "gfx906".toList (some "a.b-c".toList) :=
    ⟨by decide, fun k hk => by cases hk; decide⟩
  have houtput := (names_distinct.1 _ _ _ _ hpair hpair' hlegible).1
  exact ⟨hlegible, fun h => (nomatch (houtput _ _ h).2), fun h => (nomatch (houtput _ _ h).2)⟩

/-- Where both a device and a kernel may have dashes, one file is named for two pairs. -/
example : outputName (Path.ofText "out/k.isa".toList) [] "a-b".toList none
    = outputName (Path.ofText "out/k.isa".toList) [] "a".toList (some "b".toList) := by
  decide +kernel

end KernelIsa
