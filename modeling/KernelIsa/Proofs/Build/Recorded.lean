import KernelIsa.Proofs.Build.Accounts
import KernelIsa.Proofs.Build.Writings

/-!
# Proofs/Build/Recorded — what the records of a target say

Looked up by kernel, the session of a target has what the extraction recorded, with the binary if no
fault ended it (`get?_withListings_kernel`).  With what a build writes this tells which records
refer to the binary (`references_iff`), and which kernels have a record (`recorded_of_succeeded`).
-/

namespace KernelIsa

/-- The record has the binary, and says rightly whether that one is temporary. -/
def Record.References (record : Record) (binary : Placement) : Prop :=
  record.binary = some binary.path ∧ record.binaryIsTemporary = binary.isTemporary

namespace Extraction.Wrote

variable {place : Text → Placement} {kernels : List TrimmedKernel} {written : Written}
  {deeds : List Deed} {kernel : Text} {record : Record}

/-- Every record of a listing is that of a trimmed kernel, without a binary. -/
theorem binary_eq_none (h : Wrote place kernels written deeds)
    (hlast : Keyed.last? kernel written.records = some record) : record.binary = none := by
  have hmap (kernels : List TrimmedKernel)
      (hlast : Keyed.last? kernel (kernels.map (recordOf place)) = some record) :
      record.binary = none := by
    obtain ⟨k, -, heq⟩ := List.mem_map.mp (Keyed.mem_of_last? hlast)
    rw [← (Prod.mk.inj heq).2]
    split <;> rfl
  cases h with
  | all => exact hmap _ hlast
  | upTo done => exact hmap done hlast

/-- Writing goes on to its end exactly if no writing is refused. -/
theorem fault_isNone_iff (h : Wrote place kernels written deeds) :
    written.fault.isNone ↔ ∀ d ∈ deeds, d.isRefused = false := by
  cases h with
  | all =>
    refine ⟨fun _ d hd => ?_, fun _ => rfl⟩
    obtain ⟨k, -, rfl⟩ := List.mem_map.mp hd
    rfl
  | upTo done rest error =>
    refine ⟨fun hnone => (nomatch hnone), fun hall => ?_⟩
    have hrefused := hall _ (List.mem_append_right _ (List.mem_singleton_self _))
    cases hrefused

/-- Where writing goes on to its end, all kernels have records. -/
theorem map_fst_records (h : Wrote place kernels written deeds) (hfault : written.fault.isNone) :
    written.records.map Prod.fst = kernels.map TrimmedKernel.kernel := by
  cases h with
  | all => rw [List.map_map]; rfl
  | upTo => cases hfault

end Extraction.Wrote

namespace Target

open Extraction

variable {σ : Type} {builder : Builder (StateM σ)} {request : Request} {device kernel : Text}
  {binary : Placement} {place : Text → Placement} {extraction : Extraction} {session : Session}
  {outcome : Outcome} {key : RecordKey} {record : Record} {s t : σ}

/-! ## Look-ups -/

/-- The only record of a session. -/
theorem get?_insert_empty_iff {key' : RecordKey} {record' : Record} :
    (({} : Session).insert key record).records.get? key' = some record' ↔
      key' = key ∧ record' = record := by
  rw [Session.get?_insert]
  split
  · next heq => simp [heq, eq_comm]
  · next hne => exact iff_of_false (fun h => (nomatch h)) fun h => hne h.1.symm

theorem get?_foldl_insert_kernel (device kernel : Text) (records : List (Text × Record))
    (session : Session) :
    (records.foldl (fun session e => session.insert ⟨device, some e.1⟩ e.2) session).records.get?
        ⟨device, some kernel⟩
      = (Keyed.last? kernel records).or (session.records.get? ⟨device, some kernel⟩) := by
  induction records generalizing session with
  | nil => rfl
  | cons e records ih =>
    rw [List.foldl_cons, ih, Session.get?_insert, Keyed.last?_cons, Option.or_assoc]
    simp only [RecordKey.mk.injEq, Option.some.injEq, true_and]
    by_cases h : e.1 = kernel
    · rw [if_pos h, if_pos h]
      rfl
    · rw [if_neg h, if_neg h]
      rfl

theorem get?_foldl_insert_device (device : Text) (records : List (Text × Record))
    (session : Session) :
    (records.foldl (fun session e => session.insert ⟨device, some e.1⟩ e.2) session).records.get?
        ⟨device, none⟩ = session.records.get? ⟨device, none⟩ := by
  induction records generalizing session with
  | nil => rfl
  | cons e records ih =>
    rw [List.foldl_cons, ih, Session.get?_insert, if_neg (by simp)]

/-- **The record of a kernel is what the extraction recorded**, with the binary if no fault ended
it. -/
theorem get?_withListings_kernel (device : Text) (binary : Placement) (extraction : Extraction)
    (kernel : Text) :
    (withListings device binary extraction).records.get? ⟨device, some kernel⟩
      = (Keyed.last? kernel extraction.records).map fun record =>
          if extraction.fault.isNone then record.withBinary binary else record := by
  have hkernels := get?_foldl_insert_kernel device kernel extraction.records {}
  rw [Keyed.get?_empty, Option.or_none] at hkernels
  rw [withListings]
  cases extraction.fault with
  | some fault =>
    simp only [Option.isNone_some, Bool.false_eq_true, if_false, Option.map_id']
    rw [Session.get?_insert, if_neg (by simp)]
    exact hkernels
  | none =>
    rw [Session.get?_setBinary]
    simp only [if_true, Option.isNone_none]
    refine congrArg (Option.map _) ?_
    split
    · exact hkernels
    · rw [Session.get?_insert, if_neg (by simp)]
      exact hkernels

/-- The record of a device has the binary. -/
theorem eq_of_get?_withListings_device
    (h : (withListings device binary extraction).records.get? ⟨device, none⟩ = some record) :
    record = if extraction.fault.isNone then Record.ofBinary binary
      else Record.failed.withBinary binary := by
  cases hfault : extraction.fault with
  | some fault =>
    rw [get?_withListings device binary hfault] at h
    exact (Option.some.inj h).symm
  | none =>
    have hkernels := get?_foldl_insert_device device extraction.records {}
    rw [withListings, hfault, Session.get?_setBinary] at h
    obtain ⟨found, hfound, rfl⟩ := Option.map_eq_some_iff.mp h
    split at hfound
    · cases hkernels.symm.trans hfound
    · rw [Session.get?_insert_self] at hfound
      rw [← Option.some.inj hfound]
      simp only [if_true, Option.isNone_none]
      rfl

/-! ## References to the binary -/

theorem forall_isRefused_iff {deeds : List Deed} :
    (∀ d ∈ deeds.filter Deed.isWriting, d.isRefused = false) ↔ ∀ d ∈ deeds, d.isRefused = false := by
  refine ⟨fun h d hd => ?_, fun h d hd => h d (List.mem_of_mem_filter hd)⟩
  cases d with
  | wrote p content answer => exact h _ (List.mem_filter.mpr ⟨hd, rfl⟩)
  | told => rfl
  | removed => rfl

/-- The record of a device refers to the binary. -/
theorem references_withListings_device
    (hget : (withListings device binary extraction).records.get? ⟨device, none⟩ = some record) :
    record.References binary := by
  rw [eq_of_get?_withListings_device hget]
  split <;> exact ⟨rfl, rfl⟩

/-- The record of a kernel refers to the binary exactly if no listing was refused. -/
theorem references_withListings_kernel_iff {seen : Option Inspection} {deeds : List Deed}
    (hleaves : Leaves request binary.path place seen extraction deeds)
    (hget : (withListings device binary extraction).records.get? ⟨device, some kernel⟩
      = some record) :
    record.References binary ↔ ∀ d ∈ deeds, d.isRefused = false := by
  rw [get?_withListings_kernel] at hget
  obtain ⟨found, hlast, rfl⟩ := Option.map_eq_some_iff.mp hget
  cases hleaves with
  | nothing => cases hlast
  | listings _ _ _ _ hwrote _ =>
    rw [← forall_isRefused_iff, ← hwrote.fault_isNone_iff]
    dsimp only
    split
    · next hnone => exact iff_of_true ⟨rfl, rfl⟩ hnone
    · next hsome =>
      refine iff_of_false (fun href => ?_) hsome
      cases href.1.symm.trans (hwrote.binary_eq_none hlast)

/-- **A record of a target with a binary refers to it, unless it is that of a kernel and some
listing could not be written.** -/
theorem references_iff (h : Ends (build builder request device) s outcome t)
    (hcompiles : compiles builder request device s)
    (hget : outcome.session.records.get? key = some record) :
    record.References (builder.workspace.binary request.outputs.binary device) ↔
      key.kernel = none ∨ ∀ d ∈ deeds builder request device s, d.isRefused = false := by
  have hkey : key.device = device := (made_of_ends h).isOf key record hget
  have hwent := went_of_ends h
  rw [hcompiles] at hwent
  obtain ⟨device', kernel⟩ := key
  obtain rfl : device' = device := hkey
  generalize inspected builder request device' s = seen at hwent
  generalize deeds builder request device' s = deeds at hwent ⊢
  cases hwent with
  | bare =>
    obtain ⟨heq, rfl⟩ := get?_insert_empty_iff.mp hget
    exact iff_of_true ⟨rfl, rfl⟩ (.inl (RecordKey.mk.inj heq).2)
  | listed _ _ hleaves =>
    cases kernel with
    | none => exact iff_of_true (references_withListings_device hget) (.inl rfl)
    | some kernel =>
      rw [references_withListings_kernel_iff hleaves hget]
      exact (or_iff_right nofun).symm

/-- Services that find two kernels in a binary. -/
def twoKernels : Rehearsal where
  disassemble :=
    { other := some { stdout := "0 <vadd>:\n\ts_nop // 0: BF\n\n8 <vmul>:\n\ts_nop // 8: BF\n".toList } }
  kernels := { other := some (.ok ["vadd".toList, "vmul".toList]) }
  sizes := { other := some [("vadd".toList, .ok 4), ("vmul".toList, .ok 4)] }

/-- A request for the listings of one target. -/
def oneListing : Request where
  devices := ["gfx900".toList]
  sources := [Path.ofText "k.cl".toList]
  outputs := { listing := some (Path.ofText "k.isa".toList) }

/-- A world in which the listing of the second kernel cannot be written, since a directory has its
name. -/
def blockedWorld : World where
  disk := Disk.fresh.furnish (Path.ofText "k-gfx900-vmul.isa".toList) .directory

/-- The first kernel has a record, the listing of the second one cannot be written. -/
theorem references_iff_blockedWorld :
    ∃ outcome t record, Ends (build (Run.rehearsed twoKernels) oneListing "gfx900".toList)
        blockedWorld outcome t ∧
      outcome.session.records.get? ⟨"gfx900".toList, some "vadd".toList⟩ = some record ∧
      (record.References ((Run.rehearsed twoKernels).workspace.binary oneListing.outputs.binary
          "gfx900".toList) ↔
        (⟨"gfx900".toList, some "vadd".toList⟩ : RecordKey).kernel = none ∨
          ∀ d ∈ deeds (Run.rehearsed twoKernels) oneListing "gfx900".toList blockedWorld,
            d.isRefused = false) := by
  obtain ⟨outcome, t, h, hrecord⟩ := exists_ends_of_givesSome
    (x := build (Run.rehearsed twoKernels) oneListing "gfx900".toList) (s := blockedWorld)
    (p := fun outcome => (outcome.session.records.get?
      ⟨"gfx900".toList, some "vadd".toList⟩).isSome) (by decide +kernel)
  obtain ⟨record, hget⟩ := Option.isSome_iff_exists.mp hrecord
  exact ⟨outcome, t, record, h, hget, references_iff h (by decide +kernel) hget⟩

/-- There is a binary, and the record of the first kernel does not refer to it. -/
theorem not_references_blockedWorld :
    ∃ outcome t record, Ends (build (Run.rehearsed twoKernels) oneListing "gfx900".toList)
        blockedWorld outcome t ∧
      compiles (Run.rehearsed twoKernels) oneListing "gfx900".toList blockedWorld ∧
      outcome.session.records.get? ⟨"gfx900".toList, some "vadd".toList⟩ = some record ∧
      ¬ record.References ((Run.rehearsed twoKernels).workspace.binary oneListing.outputs.binary
          "gfx900".toList) := by
  obtain ⟨outcome, t, h, hrecord⟩ := exists_ends_of_givesSome
    (x := build (Run.rehearsed twoKernels) oneListing "gfx900".toList) (s := blockedWorld)
    (p := fun outcome => (outcome.session.records.get?
      ⟨"gfx900".toList, some "vadd".toList⟩).any fun record => record.binary.isNone)
    (by decide +kernel)
  obtain ⟨record, hget, hnone⟩ := (Option.any_eq_true _ _).mp hrecord
  refine ⟨outcome, t, record, h, by decide +kernel, hget, fun href => ?_⟩
  rw [href.1] at hnone
  cases hnone

/-! ## Kernels with a record -/

/-- What the records of a target that went well say about the kernels of its binary. -/
structure Recorded (request : Request) (device : Text) (binary : Path) (inspection : Inspection)
    (fragments : Split.Fragments) (session : Session) (deeds : List Deed) : Prop where
  /-- The disassembly was split by the listed kernels. -/
  split : Split.split inspection.disassembly inspection.kernels = .ok fragments
  /-- A requested kernel is a listed one. -/
  listed : ∀ kernel ∈ request.kernel, kernel ∈ inspection.kernels
  /-- The wanted kernels that were found have records, and no others have. -/
  recorded : ∀ kernel, (session.records.get? ⟨device, some kernel⟩).isSome ↔
    isWanted request kernel ∧ kernel ∈ fragments.byKernel.keys
  /-- Where fewer kernels were found than listed, this was told. -/
  warned : fragments.found < fragments.listed → .told (.warning ("Found ".toList
    ++ decimal fragments.found ++ " of ".toList ++ decimal fragments.listed
    ++ " kernel(s) in the disassembly of ".toList ++ binary.display)) ∈ deeds

theorem unlisted?_eq_none_iff {kernels : List Text} :
    unlisted? request kernels = none ↔ ∀ kernel ∈ request.kernel, kernel ∈ kernels := by
  rw [unlisted?, Option.filter_eq_none_iff]
  simp only [Option.mem_def, Bool.not_eq_true', List.contains_iff_mem,
    Bool.not_eq_false]

/-- **In a target that goes well, every wanted kernel that is found in the disassembly has a
record**, and whoever asked for one kernel asked for a listed one. -/
theorem recorded_of_succeeded (h : Ends (build builder request device) s outcome t)
    (hneeds : request.outputs.needsListing) (hsucceeded : outcome.succeeded) :
    ∃ inspection fragments, inspected builder request device s = some inspection ∧
      Recorded request device (builder.workspace.binary request.outputs.binary device).path
        inspection fragments outcome.session (deeds builder request device s) := by
  have hwent := went_of_ends h
  generalize compiles builder request device s = isCompiled at hwent
  cases hwent with
  | unbuilt => cases hsucceeded
  | bare first hneeds' => cases hneeds.symm.trans hneeds'
  | @listed first extraction _ _ hleaves =>
    have hfault : extraction.fault.isNone := (Bool.and_eq_true_iff.mp hsucceeded).2
    cases hleaves with
    | nothing => cases hfault
    | listings hseen hlisted hsplit hkernels hwrote htold =>
      refine ⟨_, _, hseen, hsplit, unlisted?_eq_none_iff.mp hlisted, fun kernel => ?_, fun hlt => ?_⟩
      · change ((withListings device _ _).records.get? _).isSome ↔ _
        rw [get?_withListings_kernel, Option.isSome_map, Keyed.last?_isSome_iff,
          hwrote.map_fst_records hfault, ← hkernels]
        simp only [List.mem_map, List.mem_filter]
        grind
      · exact htold _ (Option.mem_def.mpr (if_pos hlt))

/-- Services that list two kernels of which one is in the disassembly. -/
def halfFound : Rehearsal :=
  { twoKernels with
    disassemble := { other := some { stdout := "0 <vadd>:\n\ts_nop // 0: BF\n".toList } } }

/-- A kernel that is listed and not found. -/
theorem recorded_of_succeeded_halfFound :
    ∃ outcome t, Ends (build (Run.rehearsed halfFound) oneListing "gfx900".toList) {}
        outcome t ∧
      ∃ inspection fragments,
        inspected (Run.rehearsed halfFound) oneListing "gfx900".toList {} = some inspection ∧
        Recorded oneListing "gfx900".toList ((Run.rehearsed halfFound).workspace.binary
          oneListing.outputs.binary "gfx900".toList).path inspection fragments outcome.session
          (deeds (Run.rehearsed halfFound) oneListing "gfx900".toList {}) := by
  obtain ⟨outcome, t, h, hsucceeded⟩ := exists_ends_of_givesSome
    (x := build (Run.rehearsed halfFound) oneListing "gfx900".toList) (s := {})
    (p := Outcome.succeeded) (by decide +kernel)
  exact ⟨outcome, t, h, recorded_of_succeeded h rfl hsucceeded⟩

/-- The requested kernel is listed, the target goes well, and there is no record. -/
theorem not_recorded_halfFound :
    ∃ outcome t inspection, Ends (build (Run.rehearsed halfFound)
        { oneListing with kernel := some "vmul".toList } "gfx900".toList) {} outcome t ∧
      outcome.succeeded ∧
      inspected (Run.rehearsed halfFound) { oneListing with kernel := some "vmul".toList }
        "gfx900".toList {} = some inspection ∧ "vmul".toList ∈ inspection.kernels ∧
      outcome.session.records.get? ⟨"gfx900".toList, some "vmul".toList⟩ = none := by
  obtain ⟨outcome, t, h, hend⟩ := exists_ends_of_givesSome
    (x := build (Run.rehearsed halfFound) { oneListing with kernel := some "vmul".toList }
      "gfx900".toList) (s := {})
    (p := fun outcome => outcome.succeeded &&
      (outcome.session.records.get? ⟨"gfx900".toList, some "vmul".toList⟩).isNone)
    (by decide +kernel)
  obtain ⟨hsucceeded, hnone⟩ := Bool.and_eq_true_iff.mp hend
  have hseen : (inspected (Run.rehearsed halfFound)
      { oneListing with kernel := some "vmul".toList } "gfx900".toList {}).any
        fun inspection => inspection.kernels.contains "vmul".toList := by decide +kernel
  obtain ⟨inspection, hinspected, hlisted⟩ := (Option.any_eq_true _ _).mp hseen
  exact ⟨outcome, t, inspection, h, hsucceeded, hinspected, List.contains_iff_mem.mp hlisted,
    Option.isNone_iff_eq_none.mp hnone⟩

end Target

end KernelIsa
