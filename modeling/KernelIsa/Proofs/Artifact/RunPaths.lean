import KernelIsa.Build.Pass
import KernelIsa.Proofs.Artifact.PathParts
import KernelIsa.Proofs.Text.Utf8

/-!
# Proofs/Artifact/RunPaths — the names of the artifacts of a run

A kernel's artifact is named in the directory of a base, by the base's stem, the device and the
kernel, with an extension (`Naming`).  Where devices and kernels have no dashes, the name tells all
of these (`Naming.path_inj`), and the table beside a listing is named as from the listing's base
with another extension (`Naming.withExtension_path`).  So artifacts with different bases have
different names.
-/

namespace KernelIsa

/-- The parts around the last place of a separator are told by the list. -/
theorem eq_of_append_cons {α : Type} [DecidableEq α] {sep : α} {front front' last last' : List α}
    (h : front ++ sep :: last = front' ++ sep :: last') (hlast : sep ∉ last)
    (hlast' : sep ∉ last') : front = front' ∧ last = last' := by
  have hread : ∀ front last : List α, sep ∉ last →
      (front ++ sep :: last).reverse.takeWhile (· ≠ sep) = last.reverse := by
    intro front last hlast
    have hall : ∀ a ∈ last.reverse, decide (a ≠ sep) = true := fun a ha =>
      decide_eq_true fun heq => hlast (heq ▸ List.mem_reverse.mp ha)
    rw [List.reverse_append, List.reverse_cons, List.append_assoc, List.takeWhile_append_of_pos hall,
      List.singleton_append, List.takeWhile_cons_of_neg (by simp), List.append_nil]
  have heq : last = last' :=
    List.reverse_inj.mp ((hread front last hlast).symm.trans (h ▸ hread front' last' hlast'))
  rw [heq] at h
  exact ⟨List.append_cancel_right h, heq⟩

/-! ## Namings -/

/-- How the files of an artifact are named. -/
structure Naming where
  directory : Path
  stem : Text
  extension : Text

namespace Naming

variable {n n' : Naming} {device device' kernel kernel' : Text} {base : Path}

/-- The naming that a base name asks for. -/
def ofBase (base : Path) (defaultExtension : Text) : Naming where
  directory := base.parent?.getD ⟨[]⟩
  stem := (base.stem?.map Utf8.decodeLossy).getD []
  extension := (base.extension?.map Utf8.decodeLossy).getD defaultExtension

/-- The naming of temporary listings. -/
def ofWorkspace (workspace : Workspace) : Naming where
  directory := workspace.directory
  stem := hyphenated [Workspace.listingFamily, workspace.tag]
  extension := "isa".toList

/-- The name of a kernel's file without its extension. -/
def front (n : Naming) (device kernel : Text) : Text :=
  (if n.stem.isEmpty then device else n.stem ++ '-' :: device) ++ '-' :: kernel

/-- The file of a kernel. -/
def path (n : Naming) (device kernel : Text) : Path :=
  n.directory.join (Path.ofText (n.front device kernel ++ '.' :: n.extension))

theorem hyphenated_singleton (part : Text) : hyphenated [part] = part := by
  simp [hyphenated, List.intercalate]

theorem join_nil (q : Path) : Path.join ⟨[]⟩ q = q := by
  rw [Path.join]
  split <;> rfl

/-- A device and its kernel, if there is one, in a row with a dash. -/
def pairPart (device : Text) (kernel : Option Text) : Text :=
  hyphenated (device :: kernelPart kernel)

theorem pairPart_none (device : Text) : pairPart device none = device := hyphenated_singleton device

theorem pairPart_some (hkernel : kernel ≠ []) (device : Text) :
    pairPart device (some kernel) = device ++ '-' :: kernel := by
  obtain ⟨c, kernel, rfl⟩ := List.exists_cons_of_ne_nil hkernel
  exact (hyphenated_cons _ _ _).trans (by rw [hyphenated_singleton])

/-- What stands in front of the device: the stem, if there is one, and a dash. -/
def opening (n : Naming) : Text := if n.stem.isEmpty then [] else n.stem ++ ['-']

/-- **A name is an opening, a device with a kernel, and an extension**, behind the directory. -/
theorem outputName_eq_join (base : Path) (defaultExtension device : Text) (kernel : Option Text) :
    outputName base defaultExtension device kernel
      = (ofBase base defaultExtension).directory.join (Path.ofText
          ((ofBase base defaultExtension).opening ++
            (pairPart device kernel ++ '.' :: (ofBase base defaultExtension).extension))) := by
  have hname (stem : Text) :
      hyphenated ((if stem.isEmpty then [] else [stem]) ++ device :: kernelPart kernel)
        = (if stem.isEmpty then [] else stem ++ ['-']) ++ pairPart device kernel := by
    cases stem with
    | nil => rfl
    | cons c stem =>
      rw [List.isEmpty_cons, if_neg nofun, if_neg nofun, List.append_assoc]
      exact hyphenated_cons _ _ _
  simp only [outputName, hname, List.append_assoc]
  rw [ofBase, opening]
  dsimp only
  cases base.parent? with
  | none => exact (join_nil _).symm
  | some directory =>
    dsimp only [Option.getD_some]
    split
    · next hempty =>
      obtain ⟨bytes⟩ := directory
      obtain rfl : bytes = [] := List.isEmpty_iff.mp hempty
      exact (join_nil _).symm
    · rfl

/-- **The name of a kernel's artifact is that of its base's naming.** -/
theorem outputName_eq (base : Path) (defaultExtension device : Text) (hkernel : kernel ≠ []) :
    outputName base defaultExtension device (some kernel)
      = (ofBase base defaultExtension).path device kernel := by
  rw [outputName_eq_join, pairPart_some hkernel, path, front, opening]
  split <;> simp

/-- The name of a listing is that of the naming of its base, or of the workspace. -/
theorem listing_path_eq (workspace : Workspace) (base : Option Path) (device : Text)
    (hkernel : kernel ≠ []) : (workspace.listing base device kernel).path
      = ((base.map fun base => ofBase base "isa".toList).getD (ofWorkspace workspace)).path device
          kernel := by
  cases base with
  | some base => exact outputName_eq base _ device hkernel
  | none =>
    obtain ⟨c, kernel, rfl⟩ := List.exists_cons_of_ne_nil hkernel
    have hname : hyphenated [Workspace.listingFamily, workspace.tag, device, c :: kernel]
        = (ofWorkspace workspace).front device (c :: kernel) := by
      have hfamily : (Workspace.listingFamily ++ '-' :: workspace.tag).isEmpty = false := rfl
      simp only [front, ofWorkspace, hfamily, Bool.false_eq_true, if_false, hyphenated_cons,
        hyphenated_singleton, List.append_assoc, List.cons_append]
    rw [Option.map_none, Option.getD_none, path, ← hname]
    rfl

/-! ## Sound namings -/

/-- A naming whose stem and extension stay in one segment, and whose extension has no dot. -/
structure IsSound (n : Naming) : Prop where
  stem : '/' ∉ n.stem
  extension : '/' ∉ n.extension ∧ '.' ∉ n.extension

/-- A part of a name, without dashes and slashes. -/
def IsPart (t : Text) : Prop := '-' ∉ t ∧ '/' ∉ t

instance (t : Text) : Decidable (IsPart t) := inferInstanceAs (Decidable (_ ∧ _))

theorem notMem_decodeLossy {bytes : Bytes} (h : Path.slash ∉ bytes) :
    '/' ∉ Utf8.decodeLossy bytes :=
  fun hmem => h (Utf8.mem_of_mem_decodeLossy (b := Path.slash) (by decide) hmem)

/-- **A naming that a base name asks for is sound.** -/
theorem isSound_ofBase {defaultExtension : Text}
    (hdefault : '/' ∉ defaultExtension ∧ '.' ∉ defaultExtension) :
    (ofBase base defaultExtension).IsSound := by
  rw [ofBase, Path.stem?, Path.extension?]
  cases hname : base.fileName? with
  | none => exact ⟨List.not_mem_nil, hdefault⟩
  | some name =>
    have hslash := (Path.isPlain_of_fileName? hname).slash_notMem
    obtain hsplit | ⟨stem, extension, -, hdot, rfl, hsplit⟩ := Path.splitName_cases name
    · simp only [Option.map_some, Option.bind_some, hsplit]
      exact ⟨notMem_decodeLossy hslash, hdefault⟩
    · simp only [Option.map_some, Option.bind_some, hsplit]
      rw [List.mem_append, List.mem_cons, not_or, not_or] at hslash
      exact ⟨notMem_decodeLossy hslash.1, notMem_decodeLossy hslash.2.2,
        fun hmem => hdot (Utf8.mem_of_mem_decodeLossy (b := Path.dot) (by decide) hmem)⟩

theorem isSound_ofWorkspace {workspace : Workspace} (h : '/' ∉ workspace.tag) :
    (ofWorkspace workspace).IsSound := by
  have hfamily : '/' ∉ Workspace.listingFamily := by decide
  refine ⟨?_, (by decide : '/' ∉ "isa".toList ∧ '.' ∉ "isa".toList)⟩
  rw [ofWorkspace, hyphenated_cons, hyphenated_singleton, List.mem_append, List.mem_cons, not_or,
    not_or]
  exact ⟨hfamily, by decide, h⟩

/-! ## Names told apart -/

theorem path_eq (n : Naming) (device kernel : Text) : n.path device kernel
    = n.directory.join ⟨Utf8.encode (n.front device kernel) ++ Path.dot :: Utf8.encode n.extension⟩ := by
  rw [path, Path.ofText, Utf8.encode_append]
  rfl

theorem slash_notMem_encode {t : Text} (h : '/' ∉ t) : Path.slash ∉ Utf8.encode t :=
  fun hmem => h ((Utf8.mem_encode_iff (b := Path.slash) (by decide)).mp hmem)

/-- The name of a file without its extension is in one segment, and more than a dot. -/
theorem encode_front (hn : n.IsSound) (hdevice : IsPart device) (hkernel : IsPart kernel) :
    Utf8.encode (n.front device kernel) ≠ [] ∧ Utf8.encode (n.front device kernel) ≠ [Path.dot] ∧
      Path.slash ∉ Utf8.encode (n.front device kernel) := by
  have hdash : (0x2D : UInt8) ∈ Utf8.encode (n.front device kernel) := by
    rw [Utf8.mem_encode_iff (by decide), front]
    exact List.mem_append_right _ List.mem_cons_self
  refine ⟨List.ne_nil_of_mem hdash, fun h => ?_, slash_notMem_encode ?_⟩
  · rw [h] at hdash
    exact absurd hdash (by decide)
  · have hstem := hn.stem
    rw [front]
    split
    · simp [hdevice.2, hkernel.2]
    · simp [hdevice.2, hkernel.2, hstem]

theorem isPlain_name (hn : n.IsSound) (hdevice : IsPart device) (hkernel : IsPart kernel) :
    Path.IsPlain (Utf8.encode (n.front device kernel) ++ Path.dot :: Utf8.encode n.extension) :=
  have hfront := encode_front hn hdevice hkernel
  Path.isPlain_append hfront.1 hfront.2.1 hfront.2.2 (slash_notMem_encode hn.extension.1)

/-- The name of a file without its extension tells the stem, the device and the kernel. -/
theorem front_inj (hdevice : '-' ∉ device) (hkernel : '-' ∉ kernel) (hdevice' : '-' ∉ device')
    (hkernel' : '-' ∉ kernel') (h : n.front device kernel = n'.front device' kernel') :
    n.stem = n'.stem ∧ device = device' ∧ kernel = kernel' := by
  obtain ⟨hlead, hkernels⟩ := eq_of_append_cons h hkernel hkernel'
  cases hstem : n.stem with
  | nil =>
    cases hstem' : n'.stem with
    | nil =>
      rw [hstem, hstem'] at hlead
      exact ⟨rfl, hlead, hkernels⟩
    | cons c' stem' =>
      rw [hstem, hstem'] at hlead
      rw [List.isEmpty_nil, if_pos rfl, List.isEmpty_cons, if_neg nofun] at hlead
      exact absurd (hlead ▸ List.mem_append_right _ List.mem_cons_self) hdevice
  | cons c stem =>
    cases hstem' : n'.stem with
    | nil =>
      rw [hstem, hstem'] at hlead
      rw [List.isEmpty_nil, if_pos rfl, List.isEmpty_cons, if_neg nofun] at hlead
      exact absurd (hlead ▸ List.mem_append_right _ List.mem_cons_self) hdevice'
    | cons c' stem' =>
      rw [hstem, hstem'] at hlead
      rw [List.isEmpty_cons, List.isEmpty_cons, if_neg nofun, if_neg nofun] at hlead
      obtain ⟨hstems, hdevices⟩ := eq_of_append_cons hlead hdevice hdevice'
      exact ⟨hstems, hdevices, hkernels⟩

/-- The directory of a naming as its steps, and the name of the base with its extension. -/
def completed (n : Naming) : List Path.Component × Text :=
  (n.directory.components, n.stem ++ '.' :: n.extension)

/-- **The path of a file tells its base, the device and the kernel.** -/
theorem path_inj (hn : n.IsSound) (hn' : n'.IsSound) (hdevice : IsPart device)
    (hkernel : IsPart kernel) (hdevice' : IsPart device') (hkernel' : IsPart kernel')
    (h : (n.path device kernel).components = (n'.path device' kernel').components) :
    n.completed = n'.completed ∧ device = device' ∧ kernel = kernel' := by
  rw [path_eq, path_eq, Path.components_join (isPlain_name hn hdevice hkernel),
    Path.components_join (isPlain_name hn' hdevice' hkernel')] at h
  obtain ⟨hdirectory, hname⟩ := List.append_inj' h rfl
  have hbytes := Path.Component.name.inj (List.cons.inj hname).1
  have htext : n.front device kernel ++ '.' :: n.extension
      = n'.front device' kernel' ++ '.' :: n'.extension := by
    refine Utf8.encode_injective ?_
    rw [Utf8.encode_append, Utf8.encode_append]
    exact hbytes
  obtain ⟨hfront, hextension⟩ := eq_of_append_cons htext hn.extension.2 hn'.extension.2
  obtain ⟨hstem, hdevices, hkernels⟩ :=
    front_inj hdevice.1 hkernel.1 hdevice'.1 hkernel'.1 hfront
  rw [completed, completed, hdirectory, hstem, hextension]
  exact ⟨rfl, hdevices, hkernels⟩

/-- **Another extension is that of another naming.** -/
theorem withExtension_path (hn : n.IsSound) (hdevice : IsPart device) (hkernel : IsPart kernel)
    {new : Text} (hnew : '/' ∉ new) : (n.path device kernel).withExtension new
      = ({ n with extension := new } : Naming).path device kernel := by
  have hfront := encode_front hn hdevice hkernel
  have hdot : Path.dot ∉ Utf8.encode n.extension := fun hmem =>
    hn.extension.2 ((Utf8.mem_encode_iff (b := Path.dot) (by decide)).mp hmem)
  rw [path_eq, path_eq, Path.withExtension_join hfront.1 hfront.2.1 hfront.2.2
    ⟨hdot, slash_notMem_encode hn.extension.1⟩ (slash_notMem_encode hnew)]
  rfl

end Naming

/-- A base name with its directory as steps, and with the default extension if it has none. -/
def Path.completed (base : Path) (defaultExtension : Text) : List Path.Component × Text :=
  let name := (base.fileName?.map Utf8.decodeLossy).getD []
  ((base.parent?.getD ⟨[]⟩).components,
    if base.extension?.isSome then name else name ++ '.' :: defaultExtension)

/-- **What a naming keeps of a base name is the base name, completed.** -/
theorem Naming.completed_ofBase (base : Path) (defaultExtension : Text) :
    (ofBase base defaultExtension).completed = base.completed defaultExtension := by
  rw [completed, ofBase, Path.completed, Path.stem?, Path.extension?]
  cases base.fileName? with
  | none => rfl
  | some name =>
    obtain hsplit | ⟨stem, extension, -, -, rfl, hsplit⟩ := Path.splitName_cases name
    · simp only [Option.map_some, Option.bind_some, hsplit]
      rfl
    · simp only [Option.map_some, Option.bind_some, hsplit]
      exact congrArg (Prod.mk _) (Utf8.decodeLossy_append_cons (b := Path.dot) (by decide) _ _).symm

end KernelIsa
