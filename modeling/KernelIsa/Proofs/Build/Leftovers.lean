import KernelIsa.Proofs.Artifact.TemporaryFiles
import KernelIsa.Proofs.Build.Accounts
import KernelIsa.Proofs.Build.Recorded

/-!
# Proofs/Build/Leftovers — the temporary files that a target leaves

A target leaves its binary and the listings that it came to write, wherever the build stopped
(`Target.IsLeftover`).  Its records name just these as temporary files
(`Target.temporary_iff_isLeftover`), and so does what a run gathers from its visits
(`Run.Course.temporary_iff`).
-/

namespace KernelIsa

theorem Record.mem_temporaryFiles_iff {record : Record} {p : Path} : p ∈ record.temporaryFiles ↔
    record.binaryIsTemporary ∧ record.binary = some p ∨
      record.listingIsTemporary ∧ record.listing = some p := by
  rw [temporaryFiles, List.mem_append]
  refine or_congr ?_ ?_
  · cases record.binaryIsTemporary <;> simp
  · cases record.listingIsTemporary <;> simp

namespace Extraction

variable {place : Text → Placement} {kernels : List TrimmedKernel} {written : Written}
  {deeds : List Deed}

/-- The kernels in front of the one that could not be written have their records, and their listings
were written. -/
theorem Wrote.exists_done (h : Wrote place kernels written deeds) :
    ∃ done, done <+: kernels ∧ written.records = done.map (recordOf place) ∧
      ∀ p content, Deed.wrote p content (.ok ()) ∈ deeds ↔
        ∃ k ∈ done, k.isUnsized = false ∧ (place k.kernel).path = p ∧
          Utf8.encode k.result = content := by
  have hwritings (done : List TrimmedKernel) (p : Path) (content : Bytes) :
      Deed.wrote p content (.ok ()) ∈ writingsOf place done ↔
        ∃ k ∈ done, k.isUnsized = false ∧ (place k.kernel).path = p ∧
          Utf8.encode k.result = content := by
    simp only [writingsOf, writing, List.mem_map, List.mem_filter, Bool.not_eq_true',
      Deed.wrote.injEq, and_true, and_assoc]
  cases h with
  | all => exact ⟨kernels, List.prefix_refl _, rfl, hwritings kernels⟩
  | upTo done rest error =>
    refine ⟨done, List.prefix_append _ _, rfl, fun p content => ?_⟩
    rw [List.mem_append, hwritings, or_iff_left]
    intro hrefused
    cases List.mem_singleton.mp hrefused

end Extraction

namespace Target

open Extraction

variable {σ : Type} {builder : Builder (StateM σ)} {request : Request} {device : Text}
  {binary : Placement} {place : Text → Placement} {seen : Option Inspection}
  {extraction : Extraction} {new : List Deed} {outcome : Outcome} {temporary : Bool} {p : Path}
  {s t : σ}

/-! ## The records of listings -/

/-- Some record of a target with listings refers to the binary. -/
theorem exists_references (device : Text) (binary : Placement) (extraction : Extraction) :
    ∃ key record, (withListings device binary extraction).records.get? key = some record ∧
      record.References binary := by
  cases hfault : extraction.fault with
  | some fault => exact ⟨_, _, get?_withListings device binary hfault, rfl, rfl⟩
  | none =>
    obtain ⟨key, record, hget, -⟩ := exists_withListings device binary hfault
    refine ⟨key, record, hget, ?_⟩
    have hkey : key.device = device := isOf_withListings _ _ _ _ _ hget
    obtain ⟨device', _ | kernel⟩ := key
    · obtain rfl : device' = device := hkey
      rw [eq_of_get?_withListings_device hget, hfault]
      exact ⟨rfl, rfl⟩
    · obtain rfl : device' = device := hkey
      rw [get?_withListings_kernel, hfault] at hget
      obtain ⟨found, -, rfl⟩ := Option.map_eq_some_iff.mp hget
      exact ⟨rfl, rfl⟩

/-- The temporary files of a record are the binary, if the record has it, and its listing. -/
theorem mem_temporaryFiles_settled {record : Record} (hnone : record.binary = none) (settled : Bool) :
    p ∈ (if settled then record.withBinary binary else record).temporaryFiles ↔
      settled ∧ binary.isTemporary ∧ p = binary.path ∨
        record.listingIsTemporary ∧ record.listing = some p := by
  rw [Record.mem_temporaryFiles_iff]
  cases settled with
  | true =>
    exact or_congr_left ⟨fun h => ⟨rfl, h.1, (Option.some.inj h.2).symm⟩,
      fun h => ⟨h.2.1, congrArg some h.2.2.symm⟩⟩
  | false => simp [hnone]

/-- The record of a kernel names its listing if that was written. -/
theorem listing_recordOf_iff (hplace : ∀ kernel, (place kernel).isTemporary = temporary)
    (k : TrimmedKernel) :
    ((recordOf place k).2.listingIsTemporary ∧ (recordOf place k).2.listing = some p) ↔
      temporary ∧ k.isUnsized = false ∧ (place k.kernel).path = p := by
  rw [recordOf]
  cases hk : k.isUnsized with
  | true => simp [Record.failed]
  | false => simp [Record.ofListing, hplace]

/-- The record of a device names the binary and nothing else. -/
theorem eq_of_temporary_device {record : Record}
    (hget : (withListings device binary extraction).records.get? ⟨device, none⟩ = some record)
    (hp : p ∈ record.temporaryFiles) : binary.isTemporary ∧ p = binary.path := by
  have hrecord : record = Record.withBinary ⟨none, none, false, false, extraction.fault.isNone⟩
      binary := by
    rw [eq_of_get?_withListings_device hget]
    cases extraction.fault <;> rfl
  rw [hrecord, Record.mem_temporaryFiles_iff] at hp
  obtain ⟨htemporary, hpath⟩ | ⟨htemporary, -⟩ := hp
  · exact ⟨htemporary, (Option.some.inj hpath).symm⟩
  · cases htemporary

theorem not_wrote_of_quiet {answer : Except FileError Unit} {content : Bytes}
    (hquiet : new.filter Deed.isWriting = []) : .wrote p content answer ∉ new := fun hwrote => by
  have hmem : Deed.wrote p content answer ∈ new.filter Deed.isWriting :=
    List.mem_filter.mpr ⟨hwrote, rfl⟩
  rw [hquiet] at hmem
  cases hmem

/-- An extraction records no binaries. -/
theorem binary_eq_none_of_leaves {path : Path} {kernel : Text} {record : Record}
    (hleaves : Leaves request path place seen extraction new)
    (hlast : Keyed.last? kernel extraction.records = some record) : record.binary = none := by
  cases hleaves with
  | nothing => cases hlast
  | listings _ _ _ _ hwrote _ => exact hwrote.binary_eq_none hlast

/-- **An extraction records the listings that were written.** -/
theorem exists_listing_iff {path : Path} (hplace : ∀ kernel, (place kernel).isTemporary = temporary)
    (hleaves : Leaves request path place seen extraction new) (p : Path) :
    (∃ kernel record, Keyed.last? kernel extraction.records = some record ∧
        record.listingIsTemporary ∧ record.listing = some p) ↔
      temporary ∧ ∃ kernel content, (place kernel).path = p ∧ .wrote p content (.ok ()) ∈ new := by
  cases hleaves with
  | nothing hquiet =>
    refine iff_of_false ?_ ?_
    · rintro ⟨kernel, record, hlast, -⟩
      cases hlast
    · rintro ⟨-, kernel, content, -, hwrote⟩
      exact not_wrote_of_quiet hquiet hwrote
  | listings _ _ _ hkernels hwrote =>
    obtain ⟨done, hdone, hrecords, hwritten⟩ := hwrote.exists_done
    rw [hrecords]
    constructor
    · rintro ⟨kernel, record, hlast, hlisting⟩
      obtain ⟨k, hk, hrecord⟩ := List.mem_map.mp (Keyed.mem_of_last? hlast)
      obtain rfl := (Prod.mk.inj hrecord).2
      obtain ⟨htemporary, hsized, hpath⟩ := (listing_recordOf_iff hplace k).mp hlisting
      exact ⟨htemporary, k.kernel, _, hpath,
        List.mem_of_mem_filter ((hwritten p _).mpr ⟨k, hk, hsized, hpath, rfl⟩)⟩
    · rintro ⟨htemporary, kernel, content, -, hmem⟩
      obtain ⟨k, hk, hsized, hpath, -⟩ :=
        (hwritten p content).mp (List.mem_filter.mpr ⟨hmem, rfl⟩)
      have hnodup : ((done.map (recordOf place)).map Prod.fst).Nodup := by
        rw [List.map_map]
        exact (nodup_map_kernel hkernels _).sublist (hdone.sublist.map _)
      exact ⟨k.kernel, (recordOf place k).2,
        (Keyed.last?_eq_some_iff hnodup).mpr (List.mem_map_of_mem hk),
        (listing_recordOf_iff hplace k).mpr ⟨htemporary, hsized, hpath⟩⟩

/-- **The temporary files of a target with listings** are its binary and the listings that it came
to write, as far as they are temporary. -/
theorem temporary_withListings (hplace : ∀ kernel, (place kernel).isTemporary = temporary)
    (hleaves : Leaves request binary.path place seen extraction new) (p : Path) :
    (∃ key record, (withListings device binary extraction).records.get? key = some record ∧
        p ∈ record.temporaryFiles) ↔
      binary.isTemporary ∧ p = binary.path ∨ temporary ∧ ∃ kernel content,
        (place kernel).path = p ∧ .wrote p content (.ok ()) ∈ new := by
  rw [← exists_listing_iff hplace hleaves p]
  constructor
  · rintro ⟨⟨device', kernel⟩, record, hget, hp⟩
    obtain rfl : device' = device := isOf_withListings _ _ _ _ _ hget
    cases kernel with
    | none => exact .inl (eq_of_temporary_device hget hp)
    | some kernel =>
      rw [get?_withListings_kernel] at hget
      obtain ⟨found, hlast, rfl⟩ := Option.map_eq_some_iff.mp hget
      rw [mem_temporaryFiles_settled (binary_eq_none_of_leaves hleaves hlast)] at hp
      exact hp.imp And.right fun hlisting => ⟨kernel, found, hlast, hlisting⟩
  · rintro (⟨htemporary, rfl⟩ | ⟨kernel, found, hlast, hlisting⟩)
    · obtain ⟨key, record, hget, hbinary, hflag⟩ := exists_references device binary extraction
      exact ⟨key, record, hget,
        Record.mem_temporaryFiles_iff.mpr (.inl ⟨hflag ▸ htemporary, hbinary⟩)⟩
    · refine ⟨⟨device, some kernel⟩, _, (get?_withListings_kernel ..).trans
        (Option.map_eq_some_iff.mpr ⟨_, hlast, rfl⟩), ?_⟩
      rw [mem_temporaryFiles_settled (binary_eq_none_of_leaves hleaves hlast)]
      exact .inr hlisting

/-! ## What a target leaves -/

theorem isTemporary_binary_iff {workspace : Workspace} {base : Option Path} :
    (workspace.binary base device).isTemporary ↔ base = none := by
  cases base <;> simp [Workspace.binary]

theorem isTemporary_listing (workspace : Workspace) (base : Option Path) (device kernel : Text) :
    (workspace.listing base device kernel).isTemporary = base.isNone := by
  cases base <;> rfl

/-- The temporary files that the build of a target leaves, if it starts in the state `s`: its
binary, if it got one, and the listings that it came to write. -/
inductive IsLeftover (builder : Builder (StateM σ)) (request : Request) (device : Text) (s : σ) :
    Path → Prop
  | binary (hbase : request.outputs.binary = none)
      (hcompiles : compiles builder request device s) :
    IsLeftover builder request device s (builder.workspace.binary none device).path
  | listing {kernel : Text} {content : Bytes} (hbase : request.outputs.listing = none)
      (hwrote : .wrote (builder.workspace.listing none device kernel).path content (.ok ())
        ∈ deeds builder request device s) :
    IsLeftover builder request device s (builder.workspace.listing none device kernel).path

theorem isLeftover_iff : IsLeftover builder request device s p ↔
    compiles builder request device s ∧
        (builder.workspace.binary request.outputs.binary device).isTemporary ∧
        p = (builder.workspace.binary request.outputs.binary device).path ∨
      request.outputs.listing.isNone ∧ ∃ kernel content,
        (builder.workspace.listing request.outputs.listing device kernel).path = p ∧
          .wrote p content (.ok ()) ∈ deeds builder request device s := by
  rw [isTemporary_binary_iff, Option.isNone_iff_eq_none]
  constructor
  · rintro (⟨hbase, hcompiles⟩ | ⟨hbase, hwrote⟩)
    · exact .inl ⟨hcompiles, hbase, by rw [hbase]⟩
    · exact .inr ⟨hbase, _, _, by rw [hbase], hwrote⟩
  · rintro (⟨hcompiles, hbase, rfl⟩ | ⟨hbase, kernel, content, rfl, hwrote⟩)
    · rw [hbase]
      exact .binary hbase hcompiles
    · rw [hbase] at hwrote ⊢
      exact .listing hbase hwrote

/-- The temporary file of a target without listings is its binary, if that is temporary. -/
theorem temporary_withoutListings (device : Text) (binary : Placement) (p : Path) :
    (∃ key record, (withoutListings device binary).records.get? key = some record ∧
        p ∈ record.temporaryFiles) ↔ binary.isTemporary ∧ p = binary.path := by
  simp only [withoutListings, get?_insert_empty_iff, Record.mem_temporaryFiles_iff]
  constructor
  · rintro ⟨_, _, ⟨-, rfl⟩, ⟨htemporary, hp⟩ | ⟨htemporary, -⟩⟩
    · exact ⟨htemporary, (Option.some.inj hp).symm⟩
    · cases htemporary
  · rintro ⟨htemporary, rfl⟩
    exact ⟨_, _, ⟨rfl, rfl⟩, .inl ⟨htemporary, rfl⟩⟩

/-- A target without a binary has no temporary files. -/
theorem not_temporary_unbuilt (device : Text) (p : Path) :
    ¬ ∃ key record, (Outcome.unbuilt device).session.records.get? key = some record ∧
      p ∈ record.temporaryFiles := by
  rintro ⟨key, record, hget, hp⟩
  obtain ⟨-, rfl⟩ := get?_insert_empty_iff.mp hget
  cases hp

/-- **The records of a target name what it leaves**, and nothing else, as temporary files. -/
theorem temporary_iff_isLeftover (h : Ends (build builder request device) s outcome t) (p : Path) :
    (∃ key record, outcome.session.records.get? key = some record ∧ p ∈ record.temporaryFiles) ↔
      IsLeftover builder request device s p := by
  rw [isLeftover_iff]
  have hwent := went_of_ends h
  generalize inspected builder request device s = seen at hwent
  generalize compiles builder request device s = isCompiled at hwent ⊢
  generalize deeds builder request device s = deeds at hwent ⊢
  have hlistings (hquiet : deeds.filter Deed.isWriting = []) :
      ¬ (request.outputs.listing.isNone ∧ ∃ kernel content,
        (builder.workspace.listing request.outputs.listing device kernel).path = p ∧
          .wrote p content (.ok ()) ∈ deeds) := by
    rintro ⟨-, kernel, content, -, hwrote⟩
    exact not_wrote_of_quiet hquiet hwrote
  cases hwent with
  | unbuilt hquiet =>
    refine iff_of_false (not_temporary_unbuilt device p) ?_
    rintro (⟨hcompiles, -⟩ | hlisting)
    · cases hcompiles
    · exact hlistings hquiet hlisting
  | bare _ _ hquiet =>
    rw [or_iff_left (hlistings hquiet)]
    exact (temporary_withoutListings device _ p).trans (and_iff_right rfl).symm
  | listed _ _ hleaves =>
    exact (temporary_withListings (isTemporary_listing _ _ _) hleaves p).trans
      (or_congr_left (and_iff_right rfl).symm)

end Target

namespace Run

variable {σ : Type} {builder : Builder (StateM σ)} {resolver : Resolver} {request : Request}
  {resolution : Resolution} {visits : List (Visit σ)} {s t : σ}

/-- Every visit is a build that ended. -/
theorem History.exists_ends {targets : List Text}
    (h : History builder request targets s visits t) {v : Visit σ} (hv : v ∈ visits) :
    ∃ u, Ends (Target.build builder request v.device) v.start v.outcome u := by
  induction h with
  | done => cases hv
  | stop => cases hv
  | visit _ hbuild _ ih =>
    rcases List.mem_cons.mp hv with rfl | hv
    · exact ⟨_, hbuild⟩
    · exact ih hv

/-- The record of a rejected device has no temporary files. -/
theorem notMem_temporaryFiles_rejected {isRejected : Prop} [Decidable isRejected] {record : Record}
    {p : Path} (h : (if isRejected then some Record.failed else none) = some record) :
    p ∉ record.temporaryFiles := by
  split at h
  · rw [← Option.some.inj h]
    exact List.not_mem_nil
  · cases h

/-- **What a run gathers names what its visits leave.** -/
theorem Course.temporary_iff (h : Course builder resolver request s resolution visits t)
    (p : Path) :
    (∃ key record, (gathered resolution visits).session.records.get? key = some record ∧
        p ∈ record.temporaryFiles) ↔
      ∃ v ∈ visits, Target.IsLeftover builder request v.device v.start p := by
  constructor
  · rintro ⟨key, record, hget, hp⟩
    by_cases hkey : key.device ∈ visits.map Visit.device
    · obtain ⟨v, hv, hdevice⟩ := List.mem_map.mp hkey
      obtain ⟨u, hends⟩ := h.history.exists_ends hv
      have hb : (key.device, v.outcome) ∈ (progressOf resolution.targets visits).built :=
        hdevice ▸ List.mem_map_of_mem hv
      rw [Run.get?_gather_of_mem h.nodup_built (fun _ => h.isOf_built) hb, Option.or_eq_some_iff]
        at hget
      obtain hget | ⟨-, hrejected⟩ := hget
      · exact ⟨v, hv, (Target.temporary_iff_isLeftover hends p).mp ⟨key, record, hget, hp⟩⟩
      · exact absurd hp (notMem_temporaryFiles_rejected hrejected)
    · rw [h.get?_gather_of_notMem hkey] at hget
      exact absurd hp (notMem_temporaryFiles_rejected hget)
  · rintro ⟨v, hv, hleft⟩
    obtain ⟨u, hends⟩ := h.history.exists_ends hv
    obtain ⟨key, record, hget, hp⟩ := (Target.temporary_iff_isLeftover hends p).mpr hleft
    exact ⟨key, record, h.get?_gather_of_mem hv hget, hp⟩

end Run

end KernelIsa
