import KernelIsa.Proofs.Artifact.RunPaths
import KernelIsa.Proofs.Artifact.SessionViews
import KernelIsa.Proofs.Build.Leftovers
import KernelIsa.Proofs.Build.PassFiles
import Mathlib.Data.List.Lattice
import Mathlib.Data.List.Nodup
import Mathlib.Data.List.Pairwise

/-!
# Proofs/Build/ArtifactFiles — the files of a run do not clash

A kernel has up to seven files: its listing, the table beside it, and what the other passes make of
it (`Artifact`).  The session names a listing as the workspace placed it (`Run.Course.isPlaced`), so
that every file of a run has the path of its artifact's naming (`Artifact.path?_eq`).  If the
completed bases of the artifacts are different, and that of the table is the listing's with another
extension, then all files of a run have different paths, and no pass touches a listing or a file of
another pass (`Run.nodup_files`); a listing whose own extension is that of tables is overwritten by
its table (`Run.not_nodup_tableOverListing`).
-/

namespace KernelIsa

/-! ## Artifacts -/

/-- The files that a run makes of a kernel. -/
inductive Artifact
  | listing
  | table
  | statistics
  | liveRegisters (kind : Registers.RegisterClass)
  | graph (granularity : Granularity)
  deriving DecidableEq, Repr

namespace Artifact

variable {workspace : Workspace} {outputs : Outputs} {a a' : Artifact} {n n' : Naming}
  {k k' : Session.KernelListing} {p p' : Path}

/-- All artifacts, in the order in which they are made. -/
def all : List Artifact :=
  [.listing, .table, .statistics, .liveRegisters .vector, .liveRegisters .scalar, .graph .block,
    .graph .instruction]

theorem mem_all (a : Artifact) : a ∈ all := by
  cases a with
  | liveRegisters kind => cases kind <;> decide
  | graph granularity => cases granularity <;> decide
  | _ => decide

theorem nodup_all : all.Nodup := by decide

/-- The base name of control-flow graphs. -/
def graphBase (outputs : Outputs) : Granularity → Option Path
  | .block => outputs.blockGraph
  | .instruction => outputs.instructionGraph

/-- The base name of an artifact other than the listing and the table, with its extension. -/
def base? (outputs : Outputs) : Artifact → Option (Path × Text)
  | .listing => none
  | .table => none
  | .statistics => outputs.statistics.map fun base => (base, "csv".toList)
  | .liveRegisters kind => (Pass.liveBase outputs kind).map fun base => (base, "txt".toList)
  | .graph granularity => (graphBase outputs granularity).map fun base => (base, "dot".toList)

/-- The file of an artifact for a kernel, if the run has it. -/
def path? (outputs : Outputs) (k : Session.KernelListing) (a : Artifact) : Option Path :=
  match a with
  | .listing => some k.listing
  | .table => if outputs.table && !k.record.listingIsTemporary then
      some (k.listing.withExtension "csv".toList) else none
  | .statistics | .liveRegisters _ | .graph _ =>
    (a.base? outputs).map fun b => outputName b.1 b.2 k.device (some k.kernel)

/-- How the files of an artifact are named; tables are named as the listings that a user asked
for. -/
def naming? (workspace : Workspace) (outputs : Outputs) (a : Artifact) : Option Naming :=
  match a with
  | .listing => some ((outputs.listing.map fun base => Naming.ofBase base "isa".toList).getD
      (Naming.ofWorkspace workspace))
  | .table => if outputs.table then outputs.listing.map fun base =>
      { Naming.ofBase base "isa".toList with extension := "csv".toList } else none
  | .statistics | .liveRegisters _ | .graph _ =>
    (a.base? outputs).map fun b => Naming.ofBase b.1 b.2

/-- The completed bases of the artifacts of a run: what stands in for the base of an artifact with a
base name is that name, with the default extension if it has none (`Naming.completed_ofBase`). -/
def completedBases (workspace : Workspace) (outputs : Outputs) :
    List (List Path.Component × Text) :=
  all.filterMap fun a => (a.naming? workspace outputs).map Naming.completed

/-- Artifacts with one completed base are one. -/
theorem eq_of_completed (hbases : (completedBases workspace outputs).Nodup)
    (hn : a.naming? workspace outputs = some n) (hn' : a'.naming? workspace outputs = some n')
    (h : n.completed = n'.completed) : a = a' := by
  let differ (a a' : Artifact) : Prop :=
    ∀ b ∈ (a.naming? workspace outputs).map Naming.completed,
      ∀ b' ∈ (a'.naming? workspace outputs).map Naming.completed, b ≠ b'
  have hsymm : Std.Symm differ := ⟨fun a a' h b hb b' hb' => (h b' hb' b hb).symm⟩
  have hpairwise : all.Pairwise differ := List.pairwise_filterMap.mp hbases
  by_contra hne
  refine hpairwise.forall (mem_all a) (mem_all a') hne n.completed ?_ n'.completed ?_ h
  · rw [hn]; rfl
  · rw [hn']; rfl

theorem isSound_naming? (htag : '/' ∉ workspace.tag) (hn : a.naming? workspace outputs = some n) :
    n.IsSound := by
  have hisa : '/' ∉ "isa".toList ∧ '.' ∉ "isa".toList := by decide
  have hcsv : '/' ∉ "csv".toList ∧ '.' ∉ "csv".toList := by decide
  have htxt : '/' ∉ "txt".toList ∧ '.' ∉ "txt".toList := by decide
  have hdot : '/' ∉ "dot".toList ∧ '.' ∉ "dot".toList := by decide
  have hother {extension : Text} (hextension : '/' ∉ extension ∧ '.' ∉ extension)
      {base : Option Path} (h : (base.map fun base => (base, extension)).map
        (fun b => Naming.ofBase b.1 b.2) = some n) : n.IsSound := by
    rw [Option.map_map] at h
    obtain ⟨base, -, rfl⟩ := Option.map_eq_some_iff.mp h
    exact Naming.isSound_ofBase hextension
  cases a with
  | listing =>
    obtain rfl := Option.some.inj hn
    cases outputs.listing with
    | none => exact Naming.isSound_ofWorkspace htag
    | some base => exact Naming.isSound_ofBase hisa
  | table =>
    rw [naming?] at hn
    split at hn
    · obtain ⟨base, -, rfl⟩ := Option.map_eq_some_iff.mp hn
      exact ⟨(Naming.isSound_ofBase hisa).stem, hcsv⟩
    · cases hn
  | statistics => exact hother hcsv hn
  | liveRegisters kind => exact hother htxt hn
  | graph granularity => exact hother hdot hn

/-- The listing of a kernel is the one that the workspace places. -/
structure IsPlaced (workspace : Workspace) (outputs : Outputs) (k : Session.KernelListing) :
    Prop where
  listing : k.listing = (workspace.listing outputs.listing k.device k.kernel).path
  isTemporary : k.record.listingIsTemporary = outputs.listing.isNone

/-- **Every file of a kernel has the path of its artifact's naming.** -/
theorem path?_eq (hplaced : IsPlaced workspace outputs k)
    (hdevice : Naming.IsPart k.device) (hkernel : Naming.IsPart k.kernel) (hne : k.kernel ≠ [])
    (a : Artifact) : a.path? outputs k
      = (a.naming? workspace outputs).map fun n => n.path k.device k.kernel := by
  have hother (b : Option (Path × Text)) :
      (b.map fun b => outputName b.1 b.2 k.device (some k.kernel))
        = (b.map fun b => Naming.ofBase b.1 b.2).map fun n => n.path k.device k.kernel := by
    cases b with
    | none => rfl
    | some b => exact congrArg some (Naming.outputName_eq b.1 b.2 k.device hne)
  have hlisting := hplaced.listing.trans (Naming.listing_path_eq workspace _ k.device hne)
  cases a with
  | listing => exact congrArg some hlisting
  | table =>
    rw [path?, naming?, hplaced.isTemporary]
    cases outputs.table with
    | false => rfl
    | true =>
      cases hbase : outputs.listing with
      | none => rfl
      | some base =>
        rw [hbase] at hlisting
        have hsound : (Naming.ofBase base "isa".toList).IsSound :=
          Naming.isSound_ofBase (by decide)
        refine congrArg some ?_
        rw [hlisting]
        exact Naming.withExtension_path hsound hdevice hkernel (by decide)
  | statistics => exact hother _
  | liveRegisters kind => exact hother _
  | graph granularity => exact hother _

end Artifact

/-! ## The files of the kernels of a session -/

namespace Pass

theorem mem_all (pass : Pass) : pass ∈ all := by
  cases pass with
  | liveRegisters kind => cases kind <;> decide
  | _ => decide

/-- Whether a pass goes through the kernels. -/
def isOfKernels : Pass → Bool
  | .notes => false
  | .document => false
  | _ => true

/-- The files that a pass is to write for the kernels of a session. -/
def kernelOutputs (outputs : Outputs) (session : Session) (pass : Pass) : List Path :=
  if pass.isOfKernels && pass.isRequested outputs then
    (pass.attempts outputs session).flatMap (Attempt.outputs outputs)
  else []

/-- The artifacts that a pass makes of a kernel. -/
def artifacts : Pass → List Artifact
  | .tables => [.table]
  | .statistics => [.statistics]
  | .liveRegisters kind => [.liveRegisters kind]
  | .graphs => [.graph .block, .graph .instruction]
  | .notes => []
  | .document => []

variable {outputs : Outputs} {pass : Pass}

/-- A pass that is not requested, or not over the kernels, has no artifacts to make. -/
theorem paths_eq_nil (h : ¬ (pass.isOfKernels && pass.isRequested outputs))
    (k : Session.KernelListing) :
    (pass.artifacts.flatMap fun a => (a.path? outputs k).toList) = [] := by
  have hnone {base : Option Path} (hbase : ¬ base.isSome) : base = none :=
    Option.not_isSome_iff_eq_none.mp hbase
  cases pass with
  | tables =>
    have htable : outputs.table = false := Bool.eq_false_iff.mpr h
    rw [artifacts, List.flatMap_singleton, Artifact.path?, htable]
    rfl
  | statistics =>
    rw [artifacts, List.flatMap_singleton, Artifact.path?, Artifact.base?, hnone h]
    rfl
  | liveRegisters kind =>
    rw [artifacts, List.flatMap_singleton, Artifact.path?, Artifact.base?, hnone h]
    rfl
  | graphs =>
    obtain ⟨hblock, hinstruction⟩ := Bool.or_eq_false_iff.mp (Bool.eq_false_iff.mpr h)
    simp only [artifacts, List.flatMap_cons, List.flatMap_nil, Artifact.path?, Artifact.base?,
      Artifact.graphBase, hnone (Bool.eq_false_iff.mp hblock),
      hnone (Bool.eq_false_iff.mp hinstruction)]
    rfl
  | notes => rfl
  | document => rfl

/-- **A requested pass over the kernels makes one attempt for each**, which is to write the files of
the pass's artifacts. -/
theorem exists_attempts_eq (hkernels : pass.isOfKernels) (hrequested : pass.isRequested outputs)
    (session : Session) : ∃ make : Session.KernelListing → Attempt,
      pass.attempts outputs session = session.kernelListings.map make ∧
      ∀ k, (make k).outputs outputs
        = pass.artifacts.flatMap fun a => (a.path? outputs k).toList := by
  cases pass with
  | tables =>
    have htable : outputs.table = true := hrequested
    refine ⟨.table, rfl, fun k => ?_⟩
    rw [artifacts, List.flatMap_singleton, Artifact.path?, htable, Attempt.outputs]
    cases k.record.listingIsTemporary <;> rfl
  | statistics =>
    obtain ⟨base, hbase⟩ := Option.isSome_iff_exists.mp hrequested
    refine ⟨.statistic base, by rw [attempts, hbase], fun k => ?_⟩
    rw [artifacts, List.flatMap_singleton, Artifact.path?, Artifact.base?, hbase]
    rfl
  | liveRegisters kind =>
    obtain ⟨base, hbase⟩ := Option.isSome_iff_exists.mp hrequested
    refine ⟨.liveRegisters kind base, by rw [attempts, hbase], fun k => ?_⟩
    rw [artifacts, List.flatMap_singleton, Artifact.path?, Artifact.base?, hbase]
    rfl
  | graphs =>
    refine ⟨.graphs, rfl, fun k => ?_⟩
    simp only [Attempt.outputs, artifacts, List.flatMap_cons, List.flatMap_nil, List.append_nil,
      List.map_append, Artifact.path?, Artifact.base?, Artifact.graphBase]
    cases outputs.blockGraph <;> cases outputs.instructionGraph <;> rfl
  | notes => cases hkernels
  | document => cases hkernels

/-- **A pass writes the files of its artifacts.** -/
theorem kernelOutputs_eq (outputs : Outputs) (session : Session) (pass : Pass) :
    pass.kernelOutputs outputs session = session.kernelListings.flatMap fun k =>
      pass.artifacts.flatMap fun a => (a.path? outputs k).toList := by
  rw [kernelOutputs]
  split
  · next h =>
    obtain ⟨hkernels, hrequested⟩ := Bool.and_eq_true_iff.mp h
    obtain ⟨make, hattempts, hmake⟩ := exists_attempts_eq hkernels hrequested session
    rw [hattempts, List.flatMap_map, ← funext hmake]
  · next h => simp [paths_eq_nil h]

end Pass

namespace Session

/-- The files that a run is to write for the kernels of a session: their listings, and what the
passes make of them. -/
def kernelFiles (session : Session) (outputs : Outputs) : List Path :=
  session.kernelListings.map KernelListing.listing
    ++ Pass.all.flatMap fun pass => pass.kernelOutputs outputs session

theorem perm_flatMap_comm {α β γ : Type} (xs : List α) (ys : List β) (f : α → β → List γ) :
    (xs.flatMap fun x => ys.flatMap (f x)).Perm (ys.flatMap fun y => xs.flatMap fun x => f x y) := by
  induction ys with
  | nil => simp
  | cons y ys ih =>
    simp only [List.flatMap_cons]
    exact (List.flatMap_append_perm xs _ _).symm.trans (ih.append_left _)

/-- **The files of a session are those of the artifacts of its kernels.** -/
theorem perm_kernelFiles (session : Session) (outputs : Outputs) :
    (session.kernelFiles outputs).Perm ((session.kernelListings.product Artifact.all).filterMap
      fun e => e.2.path? outputs e.1) := by
  have hall : Artifact.all = .listing :: Pass.all.flatMap Pass.artifacts := rfl
  have hlisting : session.kernelListings.map KernelListing.listing
      = session.kernelListings.flatMap fun k => (Artifact.listing.path? outputs k).toList :=
    List.map_eq_flatMap
  rw [List.product, List.filterMap_flatMap]
  simp only [List.filterMap_eq_flatMap_toList, List.flatMap_map, hall, List.flatMap_cons,
    List.flatMap_assoc, kernelFiles, Pass.kernelOutputs_eq, hlisting]
  exact (((perm_flatMap_comm _ _ _).symm.append_left _).trans (List.flatMap_append_perm _ _ _))

variable {session : Session} {workspace : Workspace} {outputs : Outputs}

/-- A file of a kernel tells the artifact and the kernel. -/
theorem eq_of_path? (htag : '/' ∉ workspace.tag)
    (hbases : (Artifact.completedBases workspace outputs).Nodup)
    (hplaced : ∀ k ∈ session.kernelListings, Artifact.IsPlaced workspace outputs k)
    (hnames : ∀ k ∈ session.kernelListings,
      Naming.IsPart k.device ∧ Naming.IsPart k.kernel ∧ k.kernel ≠ [])
    {k k' : KernelListing} (hk : k ∈ session.kernelListings) (hk' : k' ∈ session.kernelListings)
    {a a' : Artifact} {p p' : Path} (hp : a.path? outputs k = some p)
    (hp' : a'.path? outputs k' = some p') (heq : p.components = p'.components) :
    (k, a) = (k', a') := by
  obtain ⟨hdevice, hkernel, hne⟩ := hnames k hk
  obtain ⟨hdevice', hkernel', hne'⟩ := hnames k' hk'
  rw [Artifact.path?_eq (hplaced k hk) hdevice hkernel hne] at hp
  rw [Artifact.path?_eq (hplaced k' hk') hdevice' hkernel' hne'] at hp'
  obtain ⟨n, hn, rfl⟩ := Option.map_eq_some_iff.mp hp
  obtain ⟨n', hn', rfl⟩ := Option.map_eq_some_iff.mp hp'
  obtain ⟨hcompleted, hdevices, hkernels⟩ := Naming.path_inj (Artifact.isSound_naming? htag hn)
    (Artifact.isSound_naming? htag hn') hdevice hkernel hdevice' hkernel' heq
  have hkey : k.key = k'.key := by rw [KernelListing.key, KernelListing.key, hdevices, hkernels]
  rw [eq_of_key_eq hk hk' hkey, Artifact.eq_of_completed hbases hn hn' hcompleted]

/-- **The files of a session's kernels are different**, if the bases of its artifacts are. -/
theorem nodup_kernelFiles (htag : '/' ∉ workspace.tag)
    (hbases : (Artifact.completedBases workspace outputs).Nodup)
    (hplaced : ∀ k ∈ session.kernelListings, Artifact.IsPlaced workspace outputs k)
    (hnames : ∀ k ∈ session.kernelListings,
      Naming.IsPart k.device ∧ Naming.IsPart k.kernel ∧ k.kernel ≠ []) :
    ((session.kernelFiles outputs).map Path.components).Nodup := by
  rw [((session.perm_kernelFiles outputs).map Path.components).nodup_iff, List.map_filterMap]
  refine List.pairwise_filterMap.mpr ?_
  refine (session.nodup_kernelListings.product Artifact.nodup_all).imp_of_mem ?_
  intro e e' hmem hmem' hne l hl l' hl' heq
  obtain ⟨p, hp, rfl⟩ := Option.map_eq_some_iff.mp hl
  obtain ⟨p', hp', rfl⟩ := Option.map_eq_some_iff.mp hl'
  exact hne (eq_of_path? htag hbases hplaced hnames (List.pair_mem_product.mp hmem).1
    (List.pair_mem_product.mp hmem').1 hp hp' heq)

end Session

/-- **A pass over the kernels touches no listing and no file of another pass**, if the files of the
session's kernels are different. -/
theorem Pass.Ran.content_kept {σ L : Type} {place : Path → L} {content : σ → L → Option Bytes}
    {tools : PassTools} {host : Host (StateM σ)} {services : Services (StateM σ)} {request : Request}
    {session : Session} {pass other : Pass} {s t : σ} {answers : List (Attempt × Except Fault Unit)}
    {result : Except Fault Unit} {p : Path}
    (h : Ran host services request session pass s answers result t)
    (hserves : Serves place content tools host services)
    (hplace : ∀ p q, place p = place q → p.components = q.components)
    (hdifferent : ((session.kernelFiles request.outputs).map Path.components).Nodup)
    (hkernels : pass.isOfKernels) (hrequested : pass.isRequested request.outputs)
    (hp : p ∈ session.kernelListings.map Session.KernelListing.listing ∨
      other ≠ pass ∧ p ∈ other.kernelOutputs request.outputs session) :
    content t (place p) = content s (place p) := by
  have houtputs : pass.kernelOutputs request.outputs session
      = (pass.attempts request.outputs session).flatMap (Attempt.outputs request.outputs) :=
    if_pos (Bool.and_eq_true_iff.mpr ⟨hkernels, hrequested⟩)
  rw [Session.kernelFiles, List.map_append] at hdifferent
  obtain ⟨-, hpasses, hlistings⟩ := List.nodup_append.mp hdifferent
  refine h.content_eq hserves fun q hq hplaces => ?_
  rw [← houtputs] at hq
  have hmem : q.components ∈ (Pass.all.flatMap fun pass =>
      pass.kernelOutputs request.outputs session).map Path.components :=
    List.mem_map_of_mem (List.mem_flatMap_of_mem pass.mem_all hq)
  obtain hp | ⟨hother, hp⟩ := hp
  · exact hlistings _ (List.mem_map_of_mem hp) _ hmem (hplace q p hplaces).symm
  · rw [List.map_flatMap, List.nodup_flatMap] at hpasses
    have hsymm : Std.Symm (Function.onFun List.Disjoint fun pass : Pass =>
        (pass.kernelOutputs request.outputs session).map Path.components) :=
      ⟨fun _ _ h => List.Disjoint.symm h⟩
    refine hpasses.2.forall other.mem_all pass.mem_all hother (List.mem_map_of_mem hp) ?_
    rw [← hplace q p hplaces]
    exact List.mem_map_of_mem hq

/-! ## The listings of a run -/

/-- The binary that a record may get changes nothing about its listing. -/
theorem Record.listing_withBinary (record : Record) (binary : Placement) (settled : Bool) :
    (if settled then record.withBinary binary else record)
      = { record with
          binary := if settled then some binary.path else record.binary
          binaryIsTemporary := if settled then binary.isTemporary else record.binaryIsTemporary } := by
  cases settled <;> rfl

namespace Target

open Extraction

variable {σ : Type} {builder : Builder (StateM σ)} {request : Request} {device kernel : Text}
  {binary : Path} {seen : Option Inspection} {place : Text → Placement} {extraction : Extraction}
  {new : List Deed} {outcome : Outcome} {record : Record} {p : Path} {content : Bytes} {s t : σ}

/-- An extraction records listings as they are placed. -/
theorem Leaves.record_eq (h : Leaves request binary place seen extraction new)
    (hlast : Keyed.last? kernel extraction.records = some record)
    (hlisting : record.listing = some p) : record = Record.ofListing (place kernel) := by
  cases h with
  | nothing => cases hlast
  | listings _ _ _ _ hwrote =>
    obtain ⟨done, -, hrecords, -⟩ := hwrote.exists_done
    rw [hrecords] at hlast
    obtain ⟨k, -, hrecord⟩ := List.mem_map.mp (Keyed.mem_of_last? hlast)
    obtain ⟨rfl, rfl⟩ := Prod.mk.inj hrecord
    split at hlisting
    · cases hlisting
    · next hsized => exact if_neg hsized

/-- An extraction records the listings that it wrote. -/
theorem Leaves.exists_last? (h : Leaves request binary place seen extraction new)
    (hwrote : .wrote p content (.ok ()) ∈ new) : ∃ kernel, (place kernel).path = p ∧
      Keyed.last? kernel extraction.records = some (Record.ofListing (place kernel)) := by
  cases h with
  | nothing hquiet => exact absurd hwrote (not_wrote_of_quiet hquiet)
  | listings _ _ _ hkernels hwritten =>
    obtain ⟨done, hdone, hrecords, hmem⟩ := hwritten.exists_done
    obtain ⟨k, hk, hsized, hpath, -⟩ := (hmem p content).mp (List.mem_filter.mpr ⟨hwrote, rfl⟩)
    have hnodup : ((done.map (recordOf place)).map Prod.fst).Nodup := by
      rw [List.map_map]
      exact (nodup_map_kernel hkernels _).sublist (hdone.sublist.map _)
    have hrecord : recordOf place k = (k.kernel, Record.ofListing (place k.kernel)) := by
      rw [recordOf, if_neg (by simp [hsized])]
    refine ⟨k.kernel, hpath, ?_⟩
    rw [hrecords, Keyed.last?_eq_some_iff hnodup, ← hrecord]
    exact List.mem_map_of_mem hk

/-- **The record of a kernel names its listing as the workspace placed it.** -/
theorem listing_of_ends (h : Ends (build builder request device) s outcome t)
    (hget : outcome.session.records.get? ⟨device, some kernel⟩ = some record)
    (hlisting : record.listing = some p) :
    p = (builder.workspace.listing request.outputs.listing device kernel).path ∧
      record.listingIsTemporary = request.outputs.listing.isNone := by
  have hwent := went_of_ends h
  generalize inspected builder request device s = seen at hwent
  generalize compiles builder request device s = isCompiled at hwent
  generalize deeds builder request device s = deeds at hwent
  cases hwent with
  | unbuilt => cases (get?_insert_empty_iff.mp hget).1
  | bare => cases (get?_insert_empty_iff.mp hget).1
  | listed _ _ hleaves =>
    change (withListings device _ _).records.get? ⟨device, some kernel⟩ = some record at hget
    rw [get?_withListings_kernel] at hget
    obtain ⟨found, hlast, rfl⟩ := Option.map_eq_some_iff.mp hget
    rw [Record.listing_withBinary] at hlisting ⊢
    obtain rfl := hleaves.record_eq hlast hlisting
    exact ⟨(Option.some.inj hlisting).symm, isTemporary_listing _ _ _ _⟩

/-- **A listing that was written has a successful record.** -/
theorem exists_record_of_wrote (h : Ends (build builder request device) s outcome t)
    (hwrote : .wrote p content (.ok ()) ∈ deeds builder request device s) :
    ∃ kernel record, outcome.session.records.get? ⟨device, some kernel⟩ = some record ∧
      record.success ∧ record.listing = some p := by
  have hwent := went_of_ends h
  generalize inspected builder request device s = seen at hwent
  generalize compiles builder request device s = isCompiled at hwent
  generalize deeds builder request device s = deeds at hwent hwrote
  cases hwent with
  | unbuilt hquiet => exact absurd hwrote (not_wrote_of_quiet hquiet)
  | bare _ _ hquiet => exact absurd hwrote (not_wrote_of_quiet hquiet)
  | listed _ _ hleaves =>
    obtain ⟨kernel, rfl, hlast⟩ := hleaves.exists_last? hwrote
    refine ⟨kernel, _, (get?_withListings_kernel ..).trans
      (Option.map_eq_some_iff.mpr ⟨_, hlast, rfl⟩), ?_⟩
    rw [Record.listing_withBinary]
    exact ⟨rfl, rfl⟩

end Target

namespace Run

variable {σ : Type} {builder : Builder (StateM σ)} {resolver : Resolver} {request : Request}
  {resolution : Resolution} {visits : List (Visit σ)} {compiled : Compiled} {p : Path}
  {content : Bytes} {s t : σ}

/-- **A run sees every listing as the workspace placed it.** -/
theorem Course.isPlaced (h : Course builder resolver request s resolution visits t)
    {k : Session.KernelListing} (hk : k ∈ (gathered resolution visits).session.kernelListings) :
    Artifact.IsPlaced builder.workspace request.outputs k := by
  obtain ⟨hget, -, hlisting⟩ := Session.mem_kernelListings_iff.mp hk
  by_cases hkey : k.key.device ∈ visits.map Visit.device
  · obtain ⟨v, hv, hdevice⟩ := List.mem_map.mp hkey
    obtain ⟨u, hends⟩ := h.history.exists_ends hv
    have hb : (k.key.device, v.outcome) ∈ (progressOf resolution.targets visits).built :=
      hdevice ▸ List.mem_map_of_mem hv
    rw [Run.get?_gather_of_mem h.nodup_built (fun _ => h.isOf_built) hb,
      if_neg (fun h => nomatch h.1), Option.or_none] at hget
    rw [hdevice] at hends
    obtain ⟨hplaced, htemporary⟩ := Target.listing_of_ends hends hget hlisting
    exact ⟨hplaced, htemporary⟩
  · rw [h.get?_gather_of_notMem hkey, if_neg (fun h => nomatch h.1)] at hget
    cases hget

/-- **A run sees every listing that a visit wrote.** -/
theorem Course.exists_mem_kernelListings
    (h : Course builder resolver request s resolution visits t) {v : Visit σ} (hv : v ∈ visits)
    (hwrote : .wrote p content (.ok ()) ∈ Target.deeds builder request v.device v.start) :
    ∃ k ∈ (gathered resolution visits).session.kernelListings, k.listing = p := by
  obtain ⟨u, hends⟩ := h.history.exists_ends hv
  obtain ⟨kernel, record, hget, hsuccess, hlisting⟩ := Target.exists_record_of_wrote hends hwrote
  exact ⟨⟨v.device, kernel, p, record⟩, Session.mem_kernelListings_iff.mpr
    ⟨h.get?_gather_of_mem hv hget, hsuccess, hlisting⟩, rfl⟩

/-- **The files that a run makes of its kernels are different**, if the completed bases of the
artifacts are: that of the tables is the listings' base with the extension of tables.  Every listing
that the run wrote is among them, and a pass over the kernels touches neither a listing nor a file
of another pass. -/
theorem nodup_files (h : Ends (compile builder resolver request).run s (.ok compiled) t)
    (htag : '/' ∉ builder.workspace.tag)
    (hbases : (Artifact.completedBases builder.workspace request.outputs).Nodup)
    (hnames : ∀ k ∈ compiled.session.kernelListings,
      Naming.IsPart k.device ∧ Naming.IsPart k.kernel ∧ k.kernel ≠ []) :
    (∃ resolution visits, Course builder resolver request s resolution visits t ∧
      ∀ v ∈ visits, ∀ p content,
        .wrote p content (.ok ()) ∈ Target.deeds builder request v.device v.start →
          p ∈ compiled.session.kernelListings.map Session.KernelListing.listing) ∧
    ((compiled.session.kernelFiles request.outputs).map Path.components).Nodup ∧
    ∀ {L : Type} {place : Path → L} {content : σ → L → Option Bytes} {tools : PassTools}
      {pass other : Pass} {answers : List (Attempt × Except Fault Unit)}
      {result : Except Fault Unit} {s' t' : σ} {p : Path},
      Serves place content tools builder.host builder.services →
      (∀ p q, place p = place q → p.components = q.components) →
      pass.isOfKernels → pass.isRequested request.outputs →
      Pass.Ran builder.host builder.services request compiled.session pass s' answers result t' →
      (p ∈ compiled.session.kernelListings.map Session.KernelListing.listing ∨
        other ≠ pass ∧ p ∈ other.kernelOutputs request.outputs compiled.session) →
      content t' (place p) = content s' (place p) := by
  obtain ⟨resolution, visits, hcourse, rfl⟩ := course_of_ends h
  have hdifferent := Session.nodup_kernelFiles htag hbases (fun k hk => hcourse.isPlaced hk) hnames
  refine ⟨⟨resolution, visits, hcourse, fun v hv p content hwrote => ?_⟩, hdifferent, ?_⟩
  · obtain ⟨k, hk, rfl⟩ := hcourse.exists_mem_kernelListings hv hwrote
    exact List.mem_map_of_mem hk
  · intro L place content tools pass other answers result s' t' p hserves hplace hkernels hrequested
      hran hp
    exact hran.content_kept hserves hplace hdifferent hkernels hrequested hp

/-- A request for all artifacts of one target. -/
def allArtifacts : Request where
  devices := ["gfx900".toList]
  sources := [Path.ofText "k.cl".toList]
  outputs :=
    { listing := some (Path.ofText "k.isa".toList)
      table := true
      statistics := some (Path.ofText "k.stats".toList)
      liveVectors := some (Path.ofText "vectors".toList)
      liveScalars := some (Path.ofText "scalars".toList)
      blockGraph := some (Path.ofText "blocks".toList)
      instructionGraph := some (Path.ofText "k.dot".toList) }

/-- Two kernels with all their artifacts make fourteen different files. -/
theorem nodup_files_allArtifacts : ∃ compiled t,
    Ends (compile (rehearsed Target.twoKernels) twoTargets allArtifacts).run {} (.ok compiled) t ∧
    (compiled.session.kernelFiles allArtifacts.outputs).length = 14 ∧
    ((compiled.session.kernelFiles allArtifacts.outputs).map Path.components).Nodup := by
  obtain ⟨compiled, t, h, htest⟩ := exists_ends_ok_of_givesSome
    (x := (compile (rehearsed Target.twoKernels) twoTargets allArtifacts).run) (s := ({} : World))
    (p := fun compiled : Compiled => (∀ k ∈ compiled.session.kernelListings,
      Naming.IsPart k.device ∧ Naming.IsPart k.kernel ∧ k.kernel ≠ []) ∧
        (compiled.session.kernelFiles allArtifacts.outputs).length = 14) (by decide +kernel)
  obtain ⟨hnames, hlength⟩ := of_decide_eq_true htest
  exact ⟨compiled, t, h, hlength, (nodup_files h (by decide) (by decide +kernel) hnames).2.1⟩

/-- A request for tables beside listings that have the extension of tables. -/
def tableOverListing : Request where
  devices := ["gfx900".toList]
  sources := [Path.ofText "k.cl".toList]
  outputs := { listing := some (Path.ofText "k.csv".toList), table := true }

/-- **A table overwrites a listing that has the extension of tables**: the bases of the other
artifacts are different, and yet each table has the path of the listing of which it is made. -/
theorem not_nodup_tableOverListing : ∃ compiled t,
    Ends (compile (rehearsed Target.twoKernels) twoTargets tableOverListing).run {} (.ok compiled) t ∧
    ((Artifact.all.filter (· ≠ .table)).filterMap fun a =>
      (a.naming? (rehearsed Target.twoKernels).workspace tableOverListing.outputs).map
        Naming.completed).Nodup ∧
    (∀ k ∈ compiled.session.kernelListings,
      Naming.IsPart k.device ∧ Naming.IsPart k.kernel ∧ k.kernel ≠ [] ∧
        Artifact.table.path? tableOverListing.outputs k = some k.listing) ∧
    ¬ ((compiled.session.kernelFiles tableOverListing.outputs).map Path.components).Nodup := by
  obtain ⟨compiled, t, h, htest⟩ := exists_ends_ok_of_givesSome
    (x := (compile (rehearsed Target.twoKernels) twoTargets tableOverListing).run)
    (s := ({} : World))
    (p := fun compiled : Compiled => (∀ k ∈ compiled.session.kernelListings,
      Naming.IsPart k.device ∧ Naming.IsPart k.kernel ∧ k.kernel ≠ [] ∧
        Artifact.table.path? tableOverListing.outputs k = some k.listing) ∧
          ¬ ((compiled.session.kernelFiles tableOverListing.outputs).map Path.components).Nodup)
    (by decide +kernel)
  obtain ⟨htables, hclash⟩ := of_decide_eq_true htest
  exact ⟨compiled, t, h, by decide +kernel, htables, hclash⟩

end Run

end KernelIsa
