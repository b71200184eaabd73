import KernelIsa.Proofs.Build.Deeds
import KernelIsa.Proofs.Build.Route

/-!
# Proofs/Build/Writings — the listings that a build writes

The listings of a target are written one after the other, up to the first that cannot be (`Wrote`),
and no other stage of a build writes through the host.  So an extraction leaves either no listing at
all or those of the kernels that it found (`Leaves`), and a build, seen through its deeds, is
`Went`: every build that ends went this way (`Target.went_of_ends`).
-/

namespace KernelIsa

variable {σ : Type} {builder : Builder (StateM σ)} {host : Host (StateM σ)} {request : Request}
  {device : Text} {s t u : σ}

namespace Extraction

variable {place : Text → Placement} {k : TrimmedKernel} {kernels rest : List TrimmedKernel}
  {written : Written}

/-! ## Writing in order -/

/-- The deed of writing a kernel's listing. -/
def writing (place : Text → Placement) (k : TrimmedKernel) (answer : Except FileError Unit) : Deed :=
  .wrote (place k.kernel).path (Utf8.encode k.result) answer

/-- The record of a kernel that has its listing, or has no code size. -/
def recordOf (place : Text → Placement) (k : TrimmedKernel) : Text × Record :=
  (k.kernel, if k.isUnsized then Record.failed else Record.ofListing (place k.kernel))

/-- The deeds of writing the listings of all kernels that have a code size. -/
def writingsOf (place : Text → Placement) (kernels : List TrimmedKernel) : List Deed :=
  (kernels.filter fun k => !k.isUnsized).map fun k => writing place k (.ok ())

/-- What writing the listings of kernels leaves: everything, or what was written in front of the
first listing that could not be, without a record of that one. -/
inductive Wrote (place : Text → Placement) : List TrimmedKernel → Written → List Deed → Prop
  | all (kernels : List TrimmedKernel) :
    Wrote place kernels ⟨kernels.map (recordOf place), none⟩ (writingsOf place kernels)
  | upTo (done : List TrimmedKernel) {k : TrimmedKernel} (rest : List TrimmedKernel)
      (error : FileError) (hsized : k.isUnsized = false) :
    Wrote place (done ++ k :: rest)
      ⟨done.map (recordOf place), some (.file (place k.kernel).path error)⟩
      (writingsOf place done ++ [writing place k (.error error)])

theorem writingsOf_cons_unsized (rest : List TrimmedKernel) (h : k.isUnsized = true) :
    writingsOf place (k :: rest) = writingsOf place rest := by
  rw [writingsOf, List.filter_cons_of_neg (by simp [h])]
  rfl

theorem writingsOf_cons_sized (h : k.isUnsized = false) :
    writingsOf place (k :: rest) = writing place k (.ok ()) :: writingsOf place rest := by
  rw [writingsOf, List.filter_cons_of_pos (by simp [h]), List.map_cons]
  rfl

/-- A kernel without code size is passed over. -/
theorem Wrote.cons_unsized {deeds : List Deed} (h : Wrote place rest written deeds)
    (hunsized : k.isUnsized = true) :
    Wrote place (k :: rest) (written.cons k.kernel Record.failed) deeds := by
  have hrecord : recordOf place k = (k.kernel, Record.failed) := by rw [recordOf, if_pos hunsized]
  cases h with
  | all =>
    rw [← writingsOf_cons_unsized _ hunsized, Written.cons, ← hrecord]
    exact .all (k :: rest)
  | upTo done rest error hsized =>
    rw [← writingsOf_cons_unsized done hunsized, Written.cons, ← hrecord]
    exact .upTo (k :: done) rest error hsized

/-- A listing that is written stands in front of the others. -/
theorem Wrote.cons_sized {deeds : List Deed} (h : Wrote place rest written deeds)
    (hk : k.isUnsized = false) :
    Wrote place (k :: rest) (written.cons k.kernel (Record.ofListing (place k.kernel)))
      (writing place k (.ok ()) :: deeds) := by
  have hrecord : recordOf place k = (k.kernel, Record.ofListing (place k.kernel)) := by
    rw [recordOf, if_neg (by simp [hk])]
  cases h with
  | all =>
    rw [← writingsOf_cons_sized hk, Written.cons, ← hrecord]
    exact .all (k :: rest)
  | @upTo done failing rest error hsized =>
    have hdone : writing place k (.ok ())
          :: (writingsOf place done ++ [writing place failing (.error error)])
        = writingsOf place (k :: done) ++ [writing place failing (.error error)] := by
      rw [writingsOf_cons_sized hk, List.cons_append]
    rw [hdone, Written.cons, ← hrecord]
    exact .upTo (k :: done) rest error hsized

/-- Only writings are deeds of writing. -/
theorem Wrote.filter_isWriting {deeds : List Deed} (h : Wrote place kernels written deeds) :
    deeds.filter Deed.isWriting = deeds := by
  have hall (kernels : List TrimmedKernel) : ∀ d ∈ writingsOf place kernels, d.isWriting = true := by
    intro d hd
    obtain ⟨k, -, rfl⟩ := List.mem_map.mp hd
    rfl
  refine List.filter_eq_self.mpr ?_
  cases h with
  | all => exact hall kernels
  | upTo done rest error =>
    intro d hd
    rcases List.mem_append.mp hd with hd | hd
    · exact hall done d hd
    · rw [List.mem_singleton.mp hd]
      rfl

/-! ## Running the writes -/

theorem run_writeText (files : Files (StateM σ)) (p : Path) (text : Text) (s : σ) :
    ((files.writeText p text).run s : Except Fault Unit × σ)
      = (((files.write p (Utf8.encode text)).run s : _ × σ).1.mapError (Fault.file p),
          ((files.write p (Utf8.encode text)).run s : _ × σ).2) := by
  rw [Files.writeText, StateT.run_bind]
  generalize (files.write p (Utf8.encode text)).run s = answered
  obtain ⟨_ | _, _⟩ := answered <;> rfl

theorem run_writeAll_unsized (hk : k.isUnsized = true) (s : σ) :
    ((writeAll host place (k :: rest)).run s : Written × σ)
      = (((writeAll host place rest).run s : Written × σ).1.cons k.kernel Record.failed,
          ((writeAll host place rest).run s : Written × σ).2) := by
  rw [writeAll, if_pos hk]
  rfl

/-- A listing is written before the others, which are not written if that fails. -/
theorem run_writeAll_sized (hk : k.isUnsized = false) (s : σ) :
    ((writeAll host place (k :: rest)).run s : Written × σ)
      = match (host.files.write (place k.kernel).path (Utf8.encode k.result)).run s with
        | (.error error, u) => (⟨[], some (.file (place k.kernel).path error)⟩, u)
        | (.ok _, u) => (((writeAll host place rest).run u : Written × σ).1.cons k.kernel
            (Record.ofListing (place k.kernel)),
              ((writeAll host place rest).run u : Written × σ).2) := by
  rw [writeAll, if_neg (by simp [hk]), StateT.run_bind, run_writeText]
  generalize (host.files.write (place k.kernel).path (Utf8.encode k.result)).run s = answered
  obtain ⟨_ | _, _⟩ := answered <;> rfl

/-- **Listings are written in order, up to the first that cannot be.** -/
theorem exists_wrote (host : Host (StateM σ)) (place : Text → Placement)
    (kernels : List TrimmedKernel) (s : σ) (deeds : List Deed) :
    ∃ new, ((writeAll host.noted place kernels).run (s, deeds) : Written × Noted σ)
        = (((writeAll host place kernels).run s : Written × σ).1,
            (((writeAll host place kernels).run s : Written × σ).2, deeds ++ new)) ∧
      Wrote place kernels ((writeAll host place kernels).run s : Written × σ).1 new := by
  induction kernels generalizing s deeds with
  | nil =>
    refine ⟨[], ?_, .all []⟩
    rw [List.append_nil]
    rfl
  | cons k rest ih =>
    cases hk : k.isUnsized with
    | true =>
      obtain ⟨new, hrun, hwrote⟩ := ih s deeds
      rw [run_writeAll_unsized hk, run_writeAll_unsized hk, hrun]
      exact ⟨new, rfl, hwrote.cons_unsized hk⟩
    | false =>
      rw [run_writeAll_sized hk, run_writeAll_sized hk]
      have hnoted : ((host.noted.files.write (place k.kernel).path (Utf8.encode k.result)).run
          (s, deeds) : _ × Noted σ)
            = (((host.files.write (place k.kernel).path (Utf8.encode k.result)).run s : _ × σ).1,
              (((host.files.write (place k.kernel).path (Utf8.encode k.result)).run s : _ × σ).2,
                deeds ++ [writing place k
                  ((host.files.write (place k.kernel).path (Utf8.encode k.result)).run s : _ × σ).1])) :=
        rfl
      rw [hnoted]
      obtain ⟨answer, u⟩ := (host.files.write (place k.kernel).path (Utf8.encode k.result)).run s
      cases answer with
      | error error => exact ⟨_, rfl, .upTo [] rest error hk⟩
      | ok =>
        obtain ⟨new, hrun, hwrote⟩ := ih u (deeds ++ [writing place k (.ok ())])
        refine ⟨writing place k (.ok ()) :: new, ?_, hwrote.cons_sized hk⟩
        dsimp only
        rw [hrun, List.append_assoc]
        rfl

end Extraction

namespace Target

open Extraction

variable {binary : Path} {place : Text → Placement} {inspection : Inspection}
  {fragments : Split.Fragments} {trimmed : List TrimmedKernel} {written : Written}
  {prepared : Except Fault Bool} {seen : Except Fault Inspection} {first : Bool}
  {extraction : Extraction} {outcome : Outcome} {v w : σ}

/-! ## Stages that write nothing -/

/-- A deed other than writing a file. -/
abbrev IsQuiet (d : Deed) : Prop := d.isWriting = false

theorem filter_isWriting_of_quiet {deeds : List Deed} (h : ∀ d ∈ deeds, IsQuiet d) :
    deeds.filter Deed.isWriting = [] :=
  List.filter_eq_nil_iff.mpr fun d hd => Bool.eq_false_iff.mp (h d hd)

theorem follows_preparing : Follows IsQuiet (preparing builder.noted request device).run
    (preparing builder request device).run := by
  have htold (notice : Notice) : IsQuiet (.told notice) := rfl
  refine follows_run_bind (follows_compiling htold fun _ _ => rfl) fun result => ?_
  cases result with
  | error fault => exact follows_run_bind (follows_tell htold _) fun _ => follows_run_pure _
  | ok words =>
    refine follows_run_bind (follows_tell htold _) fun _ => ?_
    exact follows_run_bind (follows_intermediateOrWarnings htold _) fun _ => follows_run_pure _

theorem follows_viewing : Follows IsQuiet (viewing builder.noted request device binary).run
    (viewing builder request device binary).run := by
  refine follows_run_bind (follows_tell (fun _ => rfl) _) fun _ => ?_
  refine follows_step_bind (follows_step_ask (.beside _)) fun _ => ?_
  refine follows_step_bind (follows_step_ofExcept _) fun _ => ?_
  exact follows_step_bind (follows_step_ask (.beside _)) fun _ => follows_step_pure _

theorem follows_dividing : Follows IsQuiet (dividing builder.noted request binary inspection).run.run
    (dividing builder request binary inspection).run.run := by
  rw [dividing, dividing]
  cases unlisted? request inspection.kernels with
  | some kernel => exact follows_step_throw _
  | none => exact follows_cutKernels (fun _ => rfl) _ _

theorem follows_trimming {entries : List (Text × Text)} : Follows IsQuiet
    (reduceAll builder.noted.host builder.noted.services binary entries).run
    (reduceAll builder.host builder.services binary entries).run :=
  follows_reduceAll (fun _ => rfl) _

theorem run_noted_tell {notice : Notice} (h : (host.tell notice).run s = ((), t))
    (deeds : List Deed) :
    (host.noted.tell notice).run (s, deeds) = ((), (t, deeds ++ [.told notice])) :=
  Prod.ext rfl (Prod.ext (congrArg Prod.snd h) rfl)

theorem ends_ofCut_iff {α : Type} {result : Except Split.CutFailure α} {a : α} :
    Ends (ofCut binary result : Step (StateM σ) α).run s (.ok a) t ↔ result = .ok a ∧ s = t := by
  rcases result with (_ | _) | a'
  · exact ⟨fun h => (nomatch (ends_pure_iff.mp h).1), fun h => (nomatch h.1)⟩
  · exact ⟨fun h => (nomatch (Prod.mk.inj h).1), fun h => (nomatch h.1)⟩
  · refine ends_pure_iff.trans (and_congr_left' ?_)
    rw [Except.ok.injEq, Except.ok.injEq]

/-- Where a disassembly is divided, the requested kernel is a listed one and the split gives the
fragments; a shortage is told. -/
theorem ends_dividing (h : Ends (dividing builder request binary inspection).run u (.ok fragments) v)
    (deeds : List Deed) :
    unlisted? request inspection.kernels = none ∧
      Split.split inspection.disassembly inspection.kernels = .ok fragments ∧
      Ends (dividing builder.noted request binary inspection).run (u, deeds) (.ok fragments)
        (v, deeds ++ ((shortage? binary fragments).map Deed.told).toList) := by
  rw [dividing] at h ⊢
  cases hlisted : unlisted? request inspection.kernels with
  | some kernel =>
    rw [hlisted] at h
    cases (ends_pure_iff.mp h).1
  | none =>
    rw [hlisted] at h
    obtain ⟨cut, u', hcut, h⟩ := ends_step_bind_iff.mp h
    obtain ⟨hsplit, rfl⟩ := ends_ofCut_iff.mp hcut
    cases hshortage : shortage? binary cut with
    | none =>
      rw [hshortage] at h
      obtain ⟨heq, rfl⟩ := ends_pure_iff.mp h
      obtain rfl := Except.ok.inj heq
      refine ⟨rfl, hsplit, ends_step_bind_iff.mpr ⟨_, _, ends_ofCut_iff.mpr ⟨hsplit, rfl⟩, ?_⟩⟩
      rw [hshortage, Option.map_none, Option.toList_none, List.append_nil]
      exact ends_pure_iff.mpr ⟨rfl, rfl⟩
    | some notice =>
      rw [hshortage] at h
      obtain ⟨_, _, htell, h⟩ := ends_step_bind_iff.mp h
      obtain ⟨heq, rfl⟩ := ends_pure_iff.mp h
      obtain rfl := Except.ok.inj heq
      have htold := ends_lift_iff.mp (ends_step_lift_iff.mp htell)
      refine ⟨rfl, hsplit, ends_step_bind_iff.mpr ⟨_, _, ends_ofCut_iff.mpr ⟨hsplit, rfl⟩, ?_⟩⟩
      rw [hshortage, Option.map_some, Option.toList_some]
      exact ends_step_bind_iff.mpr ⟨(), _, ends_step_lift_iff.mpr (ends_lift_iff.mpr
        (run_noted_tell htold deeds)), ends_pure_iff.mpr ⟨rfl, rfl⟩⟩

/-! ## What an extraction leaves -/

/-- What an extraction leaves of a binary, given what it saw of it, and what it did: nothing, or the
listings of the wanted kernels that it found. -/
inductive Leaves (request : Request) (binary : Path) (place : Text → Placement)
    (seen : Option Inspection) : Extraction → List Deed → Prop
  | nothing {fault : Fault} {deeds : List Deed} (hquiet : deeds.filter Deed.isWriting = []) :
    Leaves request binary place seen ⟨0, 0, [], some fault⟩ deeds
  | listings {inspection : Inspection} {fragments : Split.Fragments} {trimmed : List TrimmedKernel}
      {written : Written} {deeds : List Deed} (hseen : seen = some inspection)
      (hlisted : unlisted? request inspection.kernels = none)
      (hsplit : Split.split inspection.disassembly inspection.kernels = .ok fragments)
      (hkernels : trimmed.map TrimmedKernel.kernel = fragments.byKernel.keys)
      (hwrote : Wrote place (trimmed.filter fun k => isWanted request k.kernel) written
        (deeds.filter Deed.isWriting))
      (htold : ∀ notice ∈ shortage? binary fragments, .told notice ∈ deeds) :
    Leaves request binary place seen ⟨trimmed.length, (trimmed.filter TrimmedKernel.isReduced).length,
      written.records, written.fault⟩ deeds

/-- The trimmed kernels are those of the fragments, in the same order. -/
theorem map_kernel_of_reduceAll {entries : List (Text × Text)}
    (h : Ends (reduceAll builder.host builder.services binary entries) s trimmed t) :
    trimmed.map TrimmedKernel.kernel = entries.map Prod.fst := by
  induction entries generalizing s t trimmed with
  | nil =>
    obtain ⟨rfl, -⟩ := ends_pure_iff.mp h
    rfl
  | cons e entries ih =>
    simp only [reduceAll, ends_bind_iff] at h
    obtain ⟨_, _, -, rest, _, hrest, h⟩ := h
    obtain ⟨rfl, -⟩ := ends_pure_iff.mp h
    rw [List.map_cons, List.map_cons, ih hrest]

/-- No kernel is written twice. -/
theorem nodup_map_kernel (hkernels : trimmed.map TrimmedKernel.kernel = fragments.byKernel.keys)
    (p : TrimmedKernel → Bool) : ((trimmed.filter p).map TrimmedKernel.kernel).Nodup := by
  have hnodup : (trimmed.map TrimmedKernel.kernel).Nodup := by
    rw [hkernels]
    exact fragments.byKernel.nodup_keys
  exact hnodup.sublist (List.filter_sublist.map _)

/-- An extraction that ends before the listings writes nothing. -/
def EndsEarly (builder : Builder (StateM σ)) (request : Request) (device : Text) (binary : Path)
    (place : Text → Placement) (u : σ) (seen : Option Inspection) (fault : Fault) (v : σ) : Prop :=
  ∀ deeds, ∃ new, Extracts builder.noted request device binary place (u, deeds) seen
    ⟨0, 0, [], some fault⟩ (v, deeds ++ new) ∧ new.filter Deed.isWriting = []

theorem endsEarly_of_unseen {fault : Fault}
    (hview : Ends (viewing builder request device binary) u (.error fault) v) :
    EndsEarly builder request device binary place u none fault v := by
  intro deeds
  obtain ⟨new, hview', hquiet⟩ := follows_viewing.ends hview deeds
  exact ⟨new, .unseen hview', filter_isWriting_of_quiet hquiet⟩

theorem endsEarly_of_undivided {fault : Fault}
    (hview : Ends (viewing builder request device binary) s (.ok inspection) u)
    (hdivide : Ends (dividing builder request binary inspection).run u (.error fault) v) :
    EndsEarly builder request device binary place s (some inspection) fault v := by
  intro deeds
  obtain ⟨viewed, hview', hquiet⟩ := follows_viewing.ends hview deeds
  obtain ⟨divided, hdivide', hquiet'⟩ := follows_dividing.ends hdivide (deeds ++ viewed)
  rw [List.append_assoc] at hdivide'
  refine ⟨viewed ++ divided, .undivided hview' hdivide', ?_⟩
  rw [List.filter_append, filter_isWriting_of_quiet hquiet, filter_isWriting_of_quiet hquiet']
  rfl

/-- **An extraction that divides the disassembly writes the wanted kernels.** -/
theorem exists_divided (hview : Ends (viewing builder request device binary) s (.ok inspection) u)
    (hdivide : Ends (dividing builder request binary inspection).run u (.ok fragments) v)
    (htrim : Ends (reduceAll builder.host builder.services binary fragments.byKernel.entries) v
      trimmed w)
    (hwrite : ((writeAll builder.host place
      (trimmed.filter fun k => isWanted request k.kernel)).run w : _ × σ) = (written, t))
    (deeds : List Deed) :
    ∃ new, Extracts builder.noted request device binary place (s, deeds) (some inspection)
        ⟨trimmed.length, (trimmed.filter TrimmedKernel.isReduced).length, written.records,
          written.fault⟩ (t, deeds ++ new) ∧
      Wrote place (trimmed.filter fun k => isWanted request k.kernel) written
        (new.filter Deed.isWriting) ∧
      ∀ notice ∈ shortage? binary fragments, .told notice ∈ new := by
  obtain ⟨viewed, hview', hquiet⟩ := follows_viewing.ends hview deeds
  obtain ⟨-, -, hdivide'⟩ := ends_dividing hdivide (deeds ++ viewed)
  obtain ⟨reduced, htrim', hquiet'⟩ := follows_trimming.ends htrim
    (deeds ++ viewed ++ ((shortage? binary fragments).map Deed.told).toList)
  obtain ⟨wrote, hwrite', hwrote⟩ := exists_wrote builder.host place
    (trimmed.filter fun k => isWanted request k.kernel) w
    (deeds ++ viewed ++ ((shortage? binary fragments).map Deed.told).toList ++ reduced)
  rw [hwrite] at hwrite' hwrote
  have htold : ∀ d ∈ ((shortage? binary fragments).map Deed.told).toList, IsQuiet d := by
    intro d hd
    obtain ⟨notice, -, rfl⟩ := Option.map_eq_some_iff.mp (Option.mem_toList.mp hd)
    rfl
  refine ⟨viewed ++ ((shortage? binary fragments).map Deed.told).toList ++ reduced ++ wrote, ?_, ?_,
    fun notice hnotice => ?_⟩
  · simp only [List.append_assoc] at hwrite' hdivide' htrim' hview' ⊢
    exact .divided hview' hdivide' htrim' hwrite'
  · rw [List.filter_append, List.filter_append, List.filter_append,
      filter_isWriting_of_quiet hquiet, filter_isWriting_of_quiet htold,
      filter_isWriting_of_quiet hquiet', List.nil_append, List.nil_append, List.nil_append,
      hwrote.filter_isWriting]
    exact hwrote
  · have hmem : Deed.told notice ∈ ((shortage? binary fragments).map Deed.told).toList := by
      rw [Option.mem_def.mp hnotice]
      exact List.mem_singleton_self _
    simp only [List.mem_append, hmem, or_true, true_or]

/-- **Every extraction leaves listings or nothing.** -/
theorem exists_leaves {seen : Option Inspection}
    (h : Extracts builder request device binary place s seen extraction t) (deeds : List Deed) :
    ∃ new, Extracts builder.noted request device binary place (s, deeds) seen extraction
        (t, deeds ++ new) ∧ Leaves request binary place seen extraction new := by
  cases h with
  | unseen hview =>
    obtain ⟨new, hextracts, hquiet⟩ := endsEarly_of_unseen hview deeds
    exact ⟨new, hextracts, .nothing hquiet⟩
  | undivided hview hdivide =>
    obtain ⟨new, hextracts, hquiet⟩ := endsEarly_of_undivided hview hdivide deeds
    exact ⟨new, hextracts, .nothing hquiet⟩
  | divided hview hdivide htrim hwrite =>
    obtain ⟨new, hextracts, hwrote, htold⟩ := exists_divided hview hdivide htrim hwrite deeds
    obtain ⟨hlisted, hsplit, -⟩ := ends_dividing hdivide []
    exact ⟨new, hextracts, .listings rfl hlisted hsplit (map_kernel_of_reduceAll htrim) hwrote htold⟩

/-! ## What a build leaves -/

/-- The build of a target up to what is seen of its binary. -/
def surveying (builder : Builder (StateM σ)) (request : Request) (device : Text) :
    Checked (StateM σ) (Except Fault Inspection) := do
  match ← preparing builder request device with
  | .error fault => return .error fault
  | .ok _ =>
    viewing builder request device (builder.workspace.binary request.outputs.binary device).path

/-- What the tools say of the binary of a target whose build starts in the state `s`, if there is a
binary and they can say something. -/
def inspected (builder : Builder (StateM σ)) (request : Request) (device : Text) (s : σ) :
    Option Inspection :=
  match ((surveying builder request device).run.run s : Except Overflow _ × σ).1 with
  | .ok (.ok inspection) => some inspection
  | _ => none

theorem inspected_eq (hprepare : Ends (preparing builder request device) s (.ok first) u)
    (hview : Ends (viewing builder request device
      (builder.workspace.binary request.outputs.binary device).path) u seen v) :
    inspected builder request device s = seen.toOption := by
  have hsurvey : Ends (surveying builder request device) s seen v :=
    ends_bind_iff.mpr ⟨_, _, hprepare, hview⟩
  rw [inspected, hsurvey]
  cases seen <;> rfl

theorem exists_of_inspected (h : inspected builder request device s = some inspection) :
    ∃ first u v, Ends (preparing builder request device) s (.ok first) u ∧
      Ends (viewing builder request device
        (builder.workspace.binary request.outputs.binary device).path) u (.ok inspection) v := by
  rw [inspected] at h
  split at h
  · next found hresult =>
    obtain rfl := Option.some.inj h
    have hsurvey : Ends (surveying builder request device) s (.ok found) _ :=
      Prod.ext hresult rfl
    obtain ⟨prepared, u, hprepare, hview⟩ := ends_bind_iff.mp hsurvey
    cases prepared with
    | error fault => cases (ends_pure_iff.mp hview).1
    | ok first => exact ⟨first, u, _, hprepare, hview⟩
  · cases h

/-- A build prepares a binary if it gets one. -/
theorem compiles_eq (h : Ends (preparing builder request device) s prepared t) :
    compiles builder request device s = prepared.isOk := by
  obtain ⟨result, u, hcompiling, h⟩ := ends_bind_iff.mp h
  rw [compiles, hcompiling.gives_eq]
  cases result with
  | error fault =>
    obtain ⟨_, _, -, h⟩ := ends_bind_iff.mp h
    obtain ⟨rfl, -⟩ := ends_pure_iff.mp h
    rfl
  | ok words =>
    obtain ⟨_, _, -, h⟩ := ends_bind_iff.mp h
    obtain ⟨_, _, -, h⟩ := ends_bind_iff.mp h
    obtain ⟨rfl, -⟩ := ends_pure_iff.mp h
    rfl

/-- How the build of a device went, given its binary, the places of its listings, what was seen of
the binary and whether there was one: what it came to, and what it did. -/
inductive Went (request : Request) (device : Text) (binary : Placement) (place : Text → Placement)
    (seen : Option Inspection) : Bool → Outcome → List Deed → Prop
  | unbuilt {deeds : List Deed} (hquiet : deeds.filter Deed.isWriting = []) :
    Went request device binary place seen false (Outcome.unbuilt device) deeds
  | bare (first : Bool) {deeds : List Deed} (hneeds : request.outputs.needsListing = false)
      (hquiet : deeds.filter Deed.isWriting = []) :
    Went request device binary place seen true (Outcome.ofParts (withoutListings device binary) first)
      deeds
  | listed (first : Bool) {extraction : Extraction} {deeds : List Deed}
      (hneeds : request.outputs.needsListing = true)
      (hleaves : Leaves request binary.path place seen extraction deeds) :
    Went request device binary place seen true (Outcome.ofParts
      (withListings device binary extraction) (first && extraction.fault.isNone)) deeds

/-- Quiet deeds around an extraction do not matter. -/
theorem Leaves.around {seen : Option Inspection} {before deeds after : List Deed}
    (h : Leaves request binary place seen extraction deeds) (hbefore : ∀ d ∈ before, IsQuiet d)
    (hafter : ∀ d ∈ after, IsQuiet d) :
    Leaves request binary place seen extraction (before ++ deeds ++ after) := by
  have hfilter : (before ++ deeds ++ after).filter Deed.isWriting = deeds.filter Deed.isWriting := by
    rw [List.filter_append, List.filter_append, filter_isWriting_of_quiet hbefore,
      filter_isWriting_of_quiet hafter, List.nil_append, List.append_nil]
  cases h with
  | nothing hquiet => exact .nothing (hfilter.trans hquiet)
  | listings hseen hlisted hsplit hkernels hwrote htold =>
    exact .listings hseen hlisted hsplit hkernels (hfilter ▸ hwrote) fun notice hnotice =>
      List.mem_append_left _ (List.mem_append_right _ (htold notice hnotice))

/-- The deeds of a build with listings are those of its extraction, among quiet ones. -/
theorem exists_deeds_of_listed {seen : Option Inspection} {P : List Deed → Prop}
    (hprepare : Ends (preparing builder request device) s (.ok first) u)
    (hneeds : request.outputs.needsListing = true)
    (hextract : ∀ deeds, ∃ new, Extracts builder.noted request device
      (builder.workspace.binary request.outputs.binary device).path
      (builder.workspace.listing request.outputs.listing device) (u, deeds) seen extraction
      (v, deeds ++ new) ∧ P new)
    (hclose : (builder.host.tell (closing device extraction.fault)).run v = ((), t)) :
    ∃ before new after, deeds builder request device s = before ++ new ++ after ∧ P new ∧
      (∀ d ∈ before, IsQuiet d) ∧ ∀ d ∈ after, IsQuiet d := by
  obtain ⟨before, hprepare', hquiet⟩ := follows_preparing.ends hprepare []
  obtain ⟨new, hextract', hnew⟩ := hextract ([] ++ before)
  have hroute : Route builder.noted request device (s, []) seen _ (t, _) :=
    .listed hprepare' hneeds hextract' (run_noted_tell hclose _)
  refine ⟨before, new, [.told (closing device extraction.fault)], ?_, hnew, hquiet, fun d hd => ?_⟩
  · exact deeds_of_ends (route_iff.mpr ⟨_, hroute⟩)
  · rw [List.mem_singleton.mp hd]
    rfl

/-- A build without a binary writes nothing. -/
theorem writings_of_unbuilt {fault : Fault}
    (hprepare : Ends (preparing builder request device) s (.error fault) t) :
    writings builder request device s = [] := by
  obtain ⟨new, hprepare', hquiet⟩ := follows_preparing.ends hprepare []
  rw [writings, deeds_of_ends (route_iff.mpr ⟨_, .unbuilt hprepare'⟩)]
  exact filter_isWriting_of_quiet hquiet

/-- The writings of a build with listings are those of its extraction. -/
theorem exists_writings_of_listed {seen : Option Inspection} {P : List Deed → Prop}
    (hprepare : Ends (preparing builder request device) s (.ok first) u)
    (hneeds : request.outputs.needsListing = true)
    (hextract : ∀ deeds, ∃ new, Extracts builder.noted request device
      (builder.workspace.binary request.outputs.binary device).path
      (builder.workspace.listing request.outputs.listing device) (u, deeds) seen extraction
      (v, deeds ++ new) ∧ P (new.filter Deed.isWriting))
    (hclose : (builder.host.tell (closing device extraction.fault)).run v = ((), t)) :
    P (writings builder request device s) := by
  obtain ⟨before, new, after, hdeeds, hnew, hbefore, hafter⟩ := exists_deeds_of_listed
    (P := fun new => P (new.filter Deed.isWriting)) hprepare hneeds hextract hclose
  rwa [writings, hdeeds, List.filter_append, List.filter_append, filter_isWriting_of_quiet hbefore,
    filter_isWriting_of_quiet hafter, List.nil_append, List.append_nil]

/-- **A build that divides the disassembly writes the wanted kernels.** -/
theorem wrote_of_divided {x y : σ} (hneeds : request.outputs.needsListing = true)
    (hprepare : Ends (preparing builder request device) s (.ok first) u)
    (hview : Ends (viewing builder request device
      (builder.workspace.binary request.outputs.binary device).path) u (.ok inspection) v)
    (hdivide : Ends (dividing builder request
      (builder.workspace.binary request.outputs.binary device).path inspection).run v
      (.ok fragments) w)
    (htrim : Ends (reduceAll builder.host builder.services
      (builder.workspace.binary request.outputs.binary device).path fragments.byKernel.entries) w
      trimmed x)
    (hwrite : ((writeAll builder.host (builder.workspace.listing request.outputs.listing device)
      (trimmed.filter fun k => isWanted request k.kernel)).run x : _ × σ) = (written, y))
    (hclose : (builder.host.tell (closing device written.fault)).run y = ((), t)) :
    Wrote (builder.workspace.listing request.outputs.listing device)
      (trimmed.filter fun k => isWanted request k.kernel) written
      (writings builder request device s) := by
  have hextract (deeds : List Deed) : ∃ new, Extracts builder.noted request device
      (builder.workspace.binary request.outputs.binary device).path
      (builder.workspace.listing request.outputs.listing device) (u, deeds) (some inspection)
      ⟨trimmed.length, (trimmed.filter TrimmedKernel.isReduced).length, written.records,
        written.fault⟩ (y, deeds ++ new) ∧
      Wrote (builder.workspace.listing request.outputs.listing device)
        (trimmed.filter fun k => isWanted request k.kernel) written (new.filter Deed.isWriting) := by
    obtain ⟨new, hextracts, hwrote, -⟩ := exists_divided hview hdivide htrim hwrite deeds
    exact ⟨new, hextracts, hwrote⟩
  exact exists_writings_of_listed (P := Wrote _ _ written) hprepare hneeds hextract hclose

/-- What an extraction saw is what the tools say of the binary. -/
theorem inspected_of_extracts {seen : Option Inspection}
    (hprepare : Ends (preparing builder request device) s (.ok first) u)
    (hextract : Extracts builder request device
      (builder.workspace.binary request.outputs.binary device).path place u seen extraction v) :
    inspected builder request device s = seen := by
  cases hextract with
  | unseen hview => exact inspected_eq hprepare hview
  | undivided hview => exact inspected_eq hprepare hview
  | divided hview => exact inspected_eq hprepare hview

/-- **Every build that ends went this way.** -/
theorem went_of_ends (h : Ends (build builder request device) s outcome t) :
    Went request device (builder.workspace.binary request.outputs.binary device)
      (builder.workspace.listing request.outputs.listing device)
      (inspected builder request device s) (compiles builder request device s) outcome
      (deeds builder request device s) := by
  obtain ⟨seen, hroute⟩ := route_iff.mp h
  cases hroute with
  | unbuilt hprepare =>
    rw [compiles_eq hprepare]
    exact .unbuilt (writings_of_unbuilt hprepare)
  | @bare first _ hprepare hneeds =>
    obtain ⟨new, hprepare', hquiet⟩ := follows_preparing.ends hprepare []
    rw [compiles_eq hprepare, deeds_of_ends (route_iff.mpr ⟨_, .bare hprepare' hneeds⟩)]
    exact .bare first hneeds (filter_isWriting_of_quiet hquiet)
  | @listed first _ _ _ _ _ hprepare hneeds hextract hclose =>
    obtain ⟨before, new, after, hdeeds, hleaves, hbefore, hafter⟩ :=
      exists_deeds_of_listed hprepare hneeds (exists_leaves hextract) hclose
    rw [compiles_eq hprepare, inspected_of_extracts hprepare hextract, hdeeds]
    exact .listed first hneeds (hleaves.around hbefore hafter)

end Target

end KernelIsa
