import KernelIsa.Proofs.Artifact.ListingNames
import KernelIsa.Proofs.Bench.DiskChanges
import KernelIsa.Proofs.Build.Recorded

/-!
# Proofs/Build/Filtered — builds for one kernel

A build that asks for one kernel goes as the build that asks for all of them, up to the moment when
the listings are written; from there on it does what the other one does for that kernel
(`Target.build_only`).  A write may answer by the state of the files, as long as a write that
succeeds behind another one succeeds without it (`Files.WritesFreely`).
-/

namespace KernelIsa

variable {σ : Type} {builder : Builder (StateM σ)} {host : Host (StateM σ)} {request : Request}
  {device kernel : Text} {s t u : σ}

/-! ## Free writes -/

/-- A write that succeeds behind another one succeeds without it. -/
def Files.WritesFreely (files : Files (StateM σ)) : Prop :=
  ∀ s p content q content',
    ((files.write q content').run s : Except FileError Unit × σ).1 = .ok () →
    ((files.write p content).run ((files.write q content').run s : _ × σ).2 : _ × σ).1 = .ok () →
    ((files.write p content).run s : Except FileError Unit × σ).1 = .ok ()

/-- Writes whose answers depend on their arguments are free. -/
theorem Files.writesFreely_of_answer {files : Files (StateM σ)}
    (answer : Path → Bytes → Except FileError Unit)
    (h : ∀ s p content, ((files.write p content).run s : _ × σ).1 = answer p content) :
    files.WritesFreely := by
  intro s p content q content' _ hbehind
  rw [h] at hbehind ⊢
  exact hbehind

theorem World.run_write (world : World) (p : Path) (content : Bytes) :
    ((files.write p content).run world : Except FileError Unit × World)
      = match world.disk.write p content with
        | .error error => (.error error, world)
        | .ok disk => (.ok (), { world with disk := disk }) :=
  run_change (fun disk => disk.write p content) world

/-- **The files of a world are written freely.** -/
theorem World.writesFreely_files : files.WritesFreely := by
  intro world p content q content' hq hp
  rw [run_write] at hq
  rw [run_write world q, run_write] at hp
  rw [run_write]
  cases hfirst : world.disk.write q content' with
  | error error =>
    rw [hfirst] at hq
    cases hq
  | ok disk' =>
    rw [hfirst] at hp
    cases hsecond : disk'.write p content with
    | error error =>
      dsimp only at hp
      rw [hsecond] at hp
      cases hp
    | ok disk'' =>
      obtain ⟨disk, hwrite⟩ := Disk.write_isOk_of_behind hfirst hsecond
      rw [hwrite]

namespace Extraction

variable {place : Text → Placement} {kernels : List TrimmedKernel}

/-- Each of some writes that all succeed would succeed at once. -/
theorem write_eq_ok_of_writeAll (hfree : host.files.WritesFreely)
    (h : ((writeAll host place kernels).run s : Written × σ).1.fault = none) :
    ∀ k ∈ kernels, k.isUnsized = false →
      ((host.files.write (place k.kernel).path (Utf8.encode k.result)).run s : _ × σ).1 = .ok () := by
  induction kernels generalizing s with
  | nil => exact fun k hk => (List.not_mem_nil hk).elim
  | cons first rest ih =>
    intro k hk hsized
    cases hfirst : first.isUnsized with
    | true =>
      rw [run_writeAll_unsized hfirst] at h
      rcases List.mem_cons.mp hk with rfl | hk
      · cases hfirst.symm.trans hsized
      · exact ih h k hk hsized
    | false =>
      rw [run_writeAll_sized hfirst] at h
      cases hwrite :
          (host.files.write (place first.kernel).path (Utf8.encode first.result)).run s with
      | mk answer u =>
        rw [hwrite] at h
        cases answer with
        | error error => cases h
        | ok =>
          rcases List.mem_cons.mp hk with rfl | hk
          · rw [hwrite]
          · refine hfree s _ _ (place first.kernel).path (Utf8.encode first.result) ?_ ?_
            · rw [hwrite]
            · rw [hwrite]
              exact ih h k hk hsized

/-- A single kernel is written if its write succeeds. -/
theorem run_writeAll_of_length_le (hlength : kernels.length ≤ 1)
    (h : ∀ k ∈ kernels, k.isUnsized = false →
      ((host.files.write (place k.kernel).path (Utf8.encode k.result)).run s : _ × σ).1 = .ok ()) :
    ((writeAll host place kernels).run s : Written × σ).1 = ⟨kernels.map (recordOf place), none⟩ := by
  obtain _ | ⟨k, _ | ⟨_, _⟩⟩ := kernels
  · rfl
  · have hrecord : recordOf place k
        = (k.kernel, if k.isUnsized then Record.failed else Record.ofListing (place k.kernel)) := rfl
    rw [List.map_singleton, hrecord]
    cases hk : k.isUnsized with
    | true =>
      rw [run_writeAll_unsized hk]
      rfl
    | false =>
      rw [run_writeAll_sized hk]
      have hwrite := h k List.mem_cons_self hk
      generalize (host.files.write (place k.kernel).path (Utf8.encode k.result)).run s = answered
        at hwrite
      obtain ⟨answer, u⟩ := answered
      obtain rfl : answer = .ok () := hwrite
      rfl
  · exact absurd hlength (by simp)

/-- Writing that goes on to its end is known. -/
theorem Wrote.eq_of_fault {written : Written} {deeds : List Deed}
    (h : Wrote place kernels written deeds) (hfault : written.fault.isNone) :
    written = ⟨kernels.map (recordOf place), none⟩ ∧ deeds = writingsOf place kernels := by
  cases h with
  | all => exact ⟨rfl, rfl⟩
  | upTo => cases hfault

end Extraction

/-- Whether a deed is to write a certain file. -/
def Deed.writesTo (path : Path) : Deed → Bool
  | .wrote p _ _ => p = path
  | _ => false

namespace Extraction

/-- The writings of one kernel are those at its path. -/
theorem writingsOf_filter {place : Text → Placement}
    (hplace : Function.Injective fun kernel => (place kernel).path) (kernel : Text)
    (kernels : List TrimmedKernel) :
    writingsOf place (kernels.filter fun k => k.kernel = kernel)
      = (writingsOf place kernels).filter (Deed.writesTo (place kernel).path) := by
  rw [writingsOf, writingsOf, List.filter_map, List.filter_filter, List.filter_filter]
  refine congrArg _ (List.filter_congr fun k _ => ?_)
  have hpath : ((place k.kernel).path = (place kernel).path) = (k.kernel = kernel) :=
    propext hplace.eq_iff
  simp only [Function.comp_apply, writing, Deed.writesTo, hpath, Bool.and_comm]

end Extraction

/-! ## The filtered build -/

/-- The request for the artifacts of one kernel. -/
def Request.only (request : Request) (kernel : Text) : Request :=
  { request with kernel := some kernel }

namespace Target

open Extraction

variable {place : Text → Placement} {binary : Path} {seen : Option Inspection}
  {inspection : Inspection} {fragments : Split.Fragments} {trimmed : List TrimmedKernel}
  {written : Written} {extraction : Extraction} {first : Bool} {outcome outcome' : Outcome} {v w : σ}

/-- What a build for one kernel, its second outcome and writings, has to do with the build for all
kernels. -/
structure Projects (device kernel : Text) (path : Path) (outcome outcome' : Outcome)
    (writings writings' : List Deed) : Prop where
  succeeded : outcome'.succeeded = outcome.succeeded
  record : outcome'.session.records.get? ⟨device, some kernel⟩
    = outcome.session.records.get? ⟨device, some kernel⟩
  /-- No other kernel has a record. -/
  others : ∀ key, (outcome'.session.records.get? key).isSome →
    key = ⟨device, none⟩ ∨ key = ⟨device, some kernel⟩
  /-- Nothing is written but the file of the kernel, as it is written for all kernels. -/
  written : writings' = writings.filter (Deed.writesTo path)

theorem others_of_ends {request : Request} {kernel : Text}
    (h : Ends (build builder request device) s outcome t)
    (hrecords : ∀ other, (outcome.session.records.get? ⟨device, some other⟩).isSome → other = kernel)
    (key : RecordKey) (hkey : (outcome.session.records.get? key).isSome) :
    key = ⟨device, none⟩ ∨ key = ⟨device, some kernel⟩ := by
  obtain ⟨record, hget⟩ := Option.isSome_iff_exists.mp hkey
  have hdevice : key.device = device := (made_of_ends h).isOf key record hget
  obtain ⟨device', other⟩ := key
  obtain rfl : device' = device := hdevice
  cases other with
  | none => exact .inl rfl
  | some other => exact .inr (by rw [hrecords other hkey])

/-- Without a filter, a listed kernel does not change how a disassembly is divided. -/
theorem dividing_only (hkernel : request.kernel = none) (hlisted : kernel ∈ inspection.kernels) :
    dividing builder (request.only kernel) binary inspection
      = dividing builder request binary inspection := by
  have hall : unlisted? request inspection.kernels = none :=
    unlisted?_eq_none_iff.mpr fun k hk => by rw [hkernel] at hk; cases hk
  have honly : unlisted? (request.only kernel) inspection.kernels = none :=
    unlisted?_eq_none_iff.mpr fun k hk => Option.some.inj hk ▸ hlisted
  rw [dividing, dividing, hall, honly]

theorem filter_isWanted (hkernel : request.kernel = none) (trimmed : List TrimmedKernel) :
    (trimmed.filter fun k => isWanted request k.kernel) = trimmed := by
  refine List.filter_eq_self.mpr fun k _ => ?_
  rw [isWanted, hkernel]

/-- At most one of the trimmed kernels is the wanted one. -/
theorem length_filter_isWanted_le (request : Request)
    (hkernels : trimmed.map TrimmedKernel.kernel = fragments.byKernel.keys) (kernel : Text) :
    (trimmed.filter fun k => isWanted (request.only kernel) k.kernel).length ≤ 1 := by
  have hsame : (trimmed.filter fun k => isWanted (request.only kernel) k.kernel).map
      TrimmedKernel.kernel = List.replicate _ kernel :=
    List.eq_replicate_of_mem fun name hname => by
      obtain ⟨k, hk, rfl⟩ := List.mem_map.mp hname
      exact of_decide_eq_true (List.mem_filter.mp hk).2
  have hnodup := nodup_map_kernel hkernels fun k => isWanted (request.only kernel) k.kernel
  rwa [hsame, List.nodup_replicate, List.length_map] at hnodup

/-- A build that leaves neither kernels' records nor listings is its own projection. -/
theorem Projects.self {request' : Request} {path : Path}
    (h' : Ends (build builder request' device) s outcome t)
    (hnone : ∀ other, outcome.session.records.get? ⟨device, some other⟩ = none)
    (hwrites : writings builder request device s = [])
    (hwrites' : writings builder request' device s = []) :
    Projects device kernel path outcome outcome (writings builder request device s)
      (writings builder request' device s) where
  succeeded := rfl
  record := rfl
  others := others_of_ends h' fun other hother => by
    rw [hnone] at hother
    cases hother
  written := by rw [hwrites, hwrites', List.filter_nil]

/-- An extraction that ends before the listings leaves no kernel's record. -/
theorem get?_withListings_nil (device : Text) (binary : Placement) (fault : Fault) (other : Text) :
    (withListings device binary ⟨0, 0, [], some fault⟩).records.get? ⟨device, some other⟩ = none := by
  rw [get?_withListings_kernel]
  rfl

/-- A build whose extraction ends early is its own projection. -/
theorem projects_of_endsEarly {fault : Fault}
    (hneeds : request.outputs.needsListing = true)
    (hprepare : Ends (preparing builder request device) s (.ok first) u)
    (hextract : Extracts builder (request.only kernel) device
      (builder.workspace.binary request.outputs.binary device).path
      (builder.workspace.listing request.outputs.listing device) u seen ⟨0, 0, [], some fault⟩ v)
    (hearly : EndsEarly builder request device
      (builder.workspace.binary request.outputs.binary device).path
      (builder.workspace.listing request.outputs.listing device) u seen fault v)
    (hearly' : EndsEarly builder (request.only kernel) device
      (builder.workspace.binary request.outputs.binary device).path
      (builder.workspace.listing request.outputs.listing device) u seen fault v)
    (hclose : (builder.host.tell (closing device (some fault))).run v = ((), t)) :
    ∃ outcome' t', Ends (build builder (request.only kernel) device) s outcome' t' ∧
      Projects device kernel (builder.workspace.listing request.outputs.listing device kernel).path
        (Outcome.ofParts (withListings device (builder.workspace.binary request.outputs.binary device)
          ⟨0, 0, [], some fault⟩) (first && false)) outcome'
        (writings builder request device s) (writings builder (request.only kernel) device s) := by
  let extraction : Extraction := ⟨0, 0, [], some fault⟩
  have hclose' : (builder.host.tell (closing device extraction.fault)).run v = ((), t) := hclose
  have hprepare' : Ends (preparing builder (request.only kernel) device) s (.ok first) u := hprepare
  have hroute : Route builder (request.only kernel) device s seen _ t :=
    .listed hprepare' hneeds hextract hclose'
  have h' := route_iff.mpr ⟨_, hroute⟩
  exact ⟨_, t, h', .self h' (get?_withListings_nil _ _ _)
    (exists_writings_of_listed (P := (· = [])) hprepare hneeds hearly hclose')
    (exists_writings_of_listed (P := (· = [])) hprepare' hneeds hearly' hclose')⟩

/-- Where the listings of all kernels are written at some time, that of one is written at once. -/
theorem exists_run_writeAll_only (hfree : host.files.WritesFreely) (request : Request)
    (hkernels : trimmed.map TrimmedKernel.kernel = fragments.byKernel.keys) (kernel : Text)
    (hall : ((writeAll host place trimmed).run s : Written × σ).1.fault = none) :
    ∃ t, ((writeAll host place
        (trimmed.filter fun k => isWanted (request.only kernel) k.kernel)).run s : Written × σ)
      = (⟨(trimmed.filter fun k => isWanted (request.only kernel) k.kernel).map (recordOf place),
            none⟩, t) := by
  refine ⟨_, Prod.ext (run_writeAll_of_length_le ?_ fun k hk => ?_) rfl⟩
  · exact length_filter_isWanted_le request hkernels kernel
  · exact write_eq_ok_of_writeAll hfree hall k (List.mem_of_mem_filter hk)

/-- The records of the wanted kernels are the wanted records. -/
theorem map_recordOf_filter (request : Request) (kernel : Text) (trimmed : List TrimmedKernel) :
    (trimmed.filter fun k => isWanted (request.only kernel) k.kernel).map (recordOf place)
      = (trimmed.map (recordOf place)).filter fun e => e.1 = kernel := by
  rw [List.filter_map]
  rfl

/-- Among the records of one kernel, that one has the record that it has among all records. -/
theorem get?_withListings_filter (device : Text) (binary : Placement) (kernel : Text)
    (records : List (Text × Record)) (split reduced : Nat) :
    (withListings device binary ⟨split, reduced, records.filter fun e => e.1 = kernel,
        none⟩).records.get? ⟨device, some kernel⟩
      = (withListings device binary ⟨split, reduced, records, none⟩).records.get?
          ⟨device, some kernel⟩ := by
  rw [get?_withListings_kernel, get?_withListings_kernel, Keyed.last?_filter]

/-- Among the records of one kernel, no other kernel has one. -/
theorem eq_of_isSome_withListings_filter {binary : Placement} {records : List (Text × Record)}
    {split reduced : Nat} {other : Text}
    (h : ((withListings device binary ⟨split, reduced, records.filter fun e => e.1 = kernel,
      none⟩).records.get? ⟨device, some other⟩).isSome) : other = kernel := by
  rw [get?_withListings_kernel, Option.isSome_map, Keyed.last?_isSome_iff] at h
  obtain ⟨e, he, rfl⟩ := List.mem_map.mp h
  exact of_decide_eq_true (List.mem_filter.mp he).2

/-- **Where the listings of all kernels are written, that of one is written as well.** -/
theorem projects_of_divided (hkernel : request.kernel = none)
    (hneeds : request.outputs.needsListing = true) (hfree : builder.host.files.WritesFreely)
    (hlisted : kernel ∈ inspection.kernels)
    (hprepare : Ends (preparing builder request device) s (.ok first) u)
    (hview : Ends (viewing builder request device
      (builder.workspace.binary request.outputs.binary device).path) u (.ok inspection) v)
    {x y : σ}
    (hdivide : Ends (dividing builder request
      (builder.workspace.binary request.outputs.binary device).path inspection).run v
      (.ok fragments) w)
    (htrim : Ends (reduceAll builder.host builder.services
      (builder.workspace.binary request.outputs.binary device).path fragments.byKernel.entries) w
      trimmed x)
    (hwrite : ((writeAll builder.host (builder.workspace.listing request.outputs.listing device)
      (trimmed.filter fun k => isWanted request k.kernel)).run x : _ × σ) = (written, y))
    (hclose : (builder.host.tell (closing device written.fault)).run y = ((), t))
    (hwrites : ∀ d ∈ writings builder request device s, d.isRefused = false) :
    ∃ outcome' t', Ends (build builder (request.only kernel) device) s outcome' t' ∧
      Projects device kernel (builder.workspace.listing request.outputs.listing device kernel).path
        (Outcome.ofParts (withListings device (builder.workspace.binary request.outputs.binary device)
          ⟨trimmed.length, (trimmed.filter TrimmedKernel.isReduced).length, written.records,
            written.fault⟩) (first && written.fault.isNone)) outcome'
        (writings builder request device s) (writings builder (request.only kernel) device s) := by
  have hkernels := map_kernel_of_reduceAll htrim
  have hwrote := wrote_of_divided hneeds hprepare hview hdivide htrim hwrite hclose
  rw [filter_isWanted hkernel] at hwrote hwrite
  obtain ⟨rfl, hall⟩ := hwrote.eq_of_fault (hwrote.fault_isNone_iff.mpr hwrites)
  -- both builds are in the state `x` when they come to write
  obtain ⟨y', hwrite'⟩ := exists_run_writeAll_only hfree request hkernels kernel
    (congrArg (fun result : Written × σ => result.1.fault) hwrite)
  obtain ⟨t', hclose'⟩ : ∃ t', (builder.host.tell (closing device none)).run y' = ((), t') :=
    ⟨_, rfl⟩
  rw [← dividing_only hkernel hlisted] at hdivide
  have hprepare' : Ends (preparing builder (request.only kernel) device) s (.ok first) u := hprepare
  have hneeds' : (request.only kernel).outputs.needsListing = true := hneeds
  have hroute : Route builder (request.only kernel) device s (some inspection) _ t' :=
    .listed hprepare' hneeds' (.divided hview hdivide htrim hwrite') hclose'
  have h' := route_iff.mpr ⟨_, hroute⟩
  have hwrote' := wrote_of_divided hneeds' hprepare' hview hdivide htrim hwrite' hclose'
  obtain ⟨-, hall'⟩ := hwrote'.eq_of_fault rfl
  rw [map_recordOf_filter] at h'
  refine ⟨_, t', h', rfl, get?_withListings_filter .., ?_, ?_⟩
  · exact others_of_ends h' fun _ => eq_of_isSome_withListings_filter
  · rw [hall', hall]
    exact writingsOf_filter (builder.workspace.listing_injective _ _) kernel trimmed

/-! ## All kernels and one -/

/-- **A build for one kernel that the binary has is the build for all kernels, seen at this one.**
-/
theorem exists_projects (hkernel : request.kernel = none)
    (hneeds : request.outputs.needsListing = true) (hfree : builder.host.files.WritesFreely)
    (hlisted : ∀ inspection ∈ inspected builder request device s, kernel ∈ inspection.kernels)
    (h : Ends (build builder request device) s outcome t)
    (hwrites : ∀ d ∈ writings builder request device s, d.isRefused = false) :
    ∃ outcome' t', Ends (build builder (request.only kernel) device) s outcome' t' ∧
      Projects device kernel (builder.workspace.listing request.outputs.listing device kernel).path
        outcome outcome' (writings builder request device s)
        (writings builder (request.only kernel) device s) := by
  obtain ⟨seen, hroute⟩ := route_iff.mp h
  cases hroute with
  | unbuilt hprepare =>
    have hprepare' : Ends (preparing builder (request.only kernel) device) s (.error _) t := hprepare
    have h' := route_iff.mpr ⟨none, .unbuilt hprepare'⟩
    refine ⟨_, t, h', .self h' (fun other => ?_) (writings_of_unbuilt hprepare)
      (writings_of_unbuilt hprepare')⟩
    exact (Session.get?_insert _ _ _ _).trans (if_neg (by simp))
  | bare _ hneeds' => cases hneeds.symm.trans hneeds'
  | listed hprepare _ hextract hclose =>
    rw [inspected_of_extracts hprepare hextract] at hlisted
    cases hextract with
    | unseen hview =>
      exact projects_of_endsEarly hneeds hprepare (.unseen hview) (endsEarly_of_unseen hview)
        (endsEarly_of_unseen hview) hclose
    | undivided hview hdivide =>
      have hdivide' := hdivide
      rw [← dividing_only hkernel (hlisted _ rfl)] at hdivide'
      exact projects_of_endsEarly hneeds hprepare (.undivided hview hdivide')
        (endsEarly_of_undivided hview hdivide) (endsEarly_of_undivided hview hdivide') hclose
    | divided hview hdivide htrim hwrite =>
      exact projects_of_divided hkernel hneeds hfree (hlisted _ rfl) hprepare hview hdivide htrim
        hwrite hclose hwrites

/-- **A build for one kernel that the binary has not fails before it writes a listing.**  The only
record is a failed one of the device, with the binary. -/
theorem exists_unknown (hneeds : request.outputs.needsListing = true)
    (hseen : inspected builder request device s = some inspection)
    (hunlisted : kernel ∉ inspection.kernels) :
    ∃ outcome t, Ends (build builder (request.only kernel) device) s outcome t ∧
      outcome.succeeded = false ∧ writings builder (request.only kernel) device s = [] ∧
      outcome.session.records.entries = [(⟨device, none⟩, Record.failed.withBinary
        (builder.workspace.binary request.outputs.binary device))] := by
  obtain ⟨first, u, v, hprepare, hview⟩ := exists_of_inspected hseen
  have hprepare' : Ends (preparing builder (request.only kernel) device) s (.ok first) u := hprepare
  have hneeds' : (request.only kernel).outputs.needsListing = true := hneeds
  have hdivide : Ends (dividing builder (request.only kernel)
      (builder.workspace.binary request.outputs.binary device).path inspection).run v
      (.error (.unknownKernel kernel)) v := by
    have hunlisted' : unlisted? (request.only kernel) inspection.kernels = some kernel :=
      Option.filter_eq_some_iff.mpr ⟨rfl, by simpa using hunlisted⟩
    rw [dividing, hunlisted']
    exact ends_pure_iff.mpr ⟨rfl, rfl⟩
  let extraction : Extraction := ⟨0, 0, [], some (.unknownKernel kernel)⟩
  obtain ⟨t, hclose⟩ : ∃ t, (builder.host.tell (closing device extraction.fault)).run v = ((), t) :=
    ⟨_, rfl⟩
  have hroute : Route builder (request.only kernel) device s (some inspection) _ t :=
    .listed hprepare' hneeds' (.undivided hview hdivide) hclose
  refine ⟨_, t, route_iff.mpr ⟨_, hroute⟩, Bool.and_false _, ?_, rfl⟩
  exact exists_writings_of_listed (P := (· = [])) hprepare' hneeds'
    (endsEarly_of_undivided hview hdivide) hclose

/-- **The kernel filter is a projection.**  Without it, all listings are written; then with it a
kernel that the binary has is built as without it, and nothing else is.  A kernel that the binary
has not fails the target before a listing is written. -/
theorem build_only (hkernel : request.kernel = none) (hneeds : request.outputs.needsListing = true)
    (hfree : builder.host.files.WritesFreely) (kernel : Text) (s : σ) :
    ((∀ inspection ∈ inspected builder request device s, kernel ∈ inspection.kernels) →
      ∀ outcome t, Ends (build builder request device) s outcome t →
        (∀ d ∈ writings builder request device s, d.isRefused = false) →
        ∃ outcome' t', Ends (build builder (request.only kernel) device) s outcome' t' ∧
          Projects device kernel
            (builder.workspace.listing request.outputs.listing device kernel).path outcome outcome'
            (writings builder request device s)
            (writings builder (request.only kernel) device s)) ∧
    ∀ inspection ∈ inspected builder request device s, kernel ∉ inspection.kernels →
      ∃ outcome t, Ends (build builder (request.only kernel) device) s outcome t ∧
        outcome.succeeded = false ∧ writings builder (request.only kernel) device s = [] ∧
        outcome.session.records.entries = [(⟨device, none⟩, Record.failed.withBinary
          (builder.workspace.binary request.outputs.binary device))] :=
  ⟨fun hlisted _ _ h hwrites => exists_projects hkernel hneeds hfree hlisted h hwrites,
    fun _ hseen hunlisted => exists_unknown hneeds hseen hunlisted⟩

/-- What is seen of the binary with two kernels. -/
def twoInspected : Inspection where
  disassembly := "0 <vadd>:\n\ts_nop // 0: BF\n\n8 <vmul>:\n\ts_nop // 8: BF\n".toList
  kernels := ["vadd".toList, "vmul".toList]

/-- One of two kernels, and a third one. -/
theorem build_only_twoKernels :
    (∃ outcome t outcome' t',
      Ends (build (Run.rehearsed twoKernels) oneListing "gfx900".toList) {} outcome t ∧
      Ends (build (Run.rehearsed twoKernels) (oneListing.only "vmul".toList) "gfx900".toList) {}
        outcome' t' ∧
      Projects "gfx900".toList "vmul".toList ((Run.rehearsed twoKernels).workspace.listing
          oneListing.outputs.listing "gfx900".toList "vmul".toList).path outcome outcome'
        (writings (Run.rehearsed twoKernels) oneListing "gfx900".toList {})
        (writings (Run.rehearsed twoKernels) (oneListing.only "vmul".toList) "gfx900".toList {})) ∧
    ∃ outcome t,
      Ends (build (Run.rehearsed twoKernels) (oneListing.only "vdiv".toList) "gfx900".toList) {}
        outcome t ∧
      outcome.succeeded = false ∧
      writings (Run.rehearsed twoKernels) (oneListing.only "vdiv".toList) "gfx900".toList {} = [] ∧
      outcome.session.records.entries = [(⟨"gfx900".toList, none⟩, Record.failed.withBinary
        ((Run.rehearsed twoKernels).workspace.binary oneListing.outputs.binary
          "gfx900".toList))] := by
  have hseen : inspected (Run.rehearsed twoKernels) oneListing "gfx900".toList {}
      = some twoInspected := by decide +kernel
  obtain ⟨outcome, t, h, -⟩ := exists_ends_of_givesSome
    (x := build (Run.rehearsed twoKernels) oneListing "gfx900".toList) (s := {})
    (p := fun _ => true) (by decide +kernel)
  have hvmul := (@build_only World (Run.rehearsed twoKernels) oneListing "gfx900".toList rfl rfl
    World.writesFreely_files "vmul".toList {}).1
  have hvdiv := (@build_only World (Run.rehearsed twoKernels) oneListing "gfx900".toList rfl rfl
    World.writesFreely_files "vdiv".toList {}).2
  have hlisted : ∀ inspection ∈ inspected (Run.rehearsed twoKernels) oneListing "gfx900".toList {},
      "vmul".toList ∈ inspection.kernels := by
    intro inspection hinspection
    rw [hseen] at hinspection
    rw [← Option.some.inj hinspection]
    decide
  obtain ⟨outcome', t', h', hprojects⟩ := hvmul hlisted outcome t h (by decide +kernel)
  exact ⟨⟨outcome, t, outcome', t', h, h', hprojects⟩, hvdiv _ hseen (by decide)⟩

end Target

end KernelIsa
