import KernelIsa.Build.Run
import KernelIsa.Proofs.Build.TargetOutcome

/-!
# Proofs/Build/History — the targets that a run visits

Whatever its surroundings do, a run visits a prefix of its targets (`History.isPrefix`), each visit
ends as the build of a target does (`History.made`), and the answer is gathered from the visits
(`course_of_ends`).  What was gathered is looked up record by record (`get?_gather`) and added up
tally by tally (`tally_gather`).
-/

namespace KernelIsa.Run

variable {σ : Type} {builder : Builder (StateM σ)} {resolver : Resolver} {request : Request}
  {targets rejected : List Text} {progress : Progress} {compiled : Compiled} {s t : σ}

/-! ## Visits -/

/-- The build of a target in a run: the state in which it started, and its outcome. -/
structure Visit (σ : Type) where
  device : Text
  start : σ
  outcome : Target.Outcome

/-- The builds of some targets from a state to another one, up to the moment when the host answers
that the run was cancelled. -/
inductive History (builder : Builder (StateM σ)) (request : Request) :
    List Text → σ → List (Visit σ) → σ → Prop
  | done (s : σ) : History builder request [] s [] s
  | stop {device : Text} {rest : List Text} {s u t : σ}
      (hcancelled : (builder.host.isCancelled.run s : Bool × σ) = (true, u))
      (htell : (builder.host.tell (.warning ("Cancelled, ".toList ++ device
        ++ " is not compiled".toList))).run u = ((), t)) :
      History builder request (device :: rest) s [] t
  | visit {device : Text} {rest : List Text} {s u v t : σ} {outcome : Target.Outcome}
      {visits : List (Visit σ)}
      (hcancelled : (builder.host.isCancelled.run s : Bool × σ) = (false, u))
      (hbuild : Ends (Target.build builder request device) u outcome v)
      (hrest : History builder request rest v visits t) :
      History builder request (device :: rest) s (⟨device, u, outcome⟩ :: visits) t

/-- How far a run came that visited some of its targets. -/
def progressOf (targets : List Text) (visits : List (Visit σ)) : Progress where
  built := visits.map fun v => (v.device, v.outcome)
  isCancelled := visits.length < targets.length

/-- What visits and rejected devices add up to. -/
abbrev gathered (resolution : Resolution) (visits : List (Visit σ)) : Compiled :=
  gather resolution.rejected (progressOf resolution.targets visits)

/-- **Building targets is visiting some of them in order.** -/
theorem history_of_ends (h : Ends (buildAll builder request targets) s progress t) :
    ∃ visits, History builder request targets s visits t ∧
      progress = progressOf targets visits := by
  induction targets generalizing s progress with
  | nil =>
    obtain ⟨rfl, rfl⟩ := ends_pure_iff.mp h
    exact ⟨[], .done s, rfl⟩
  | cons device rest ih =>
    simp only [buildAll, ends_bind_iff] at h
    obtain ⟨isCancelled, u, hcancelled, h⟩ := h
    cases isCancelled with
    | true =>
      obtain ⟨_, _, htell, h⟩ := ends_bind_iff.mp h
      obtain ⟨rfl, rfl⟩ := ends_pure_iff.mp h
      exact ⟨[], .stop (ends_lift_iff.mp hcancelled) (ends_lift_iff.mp htell), rfl⟩
    | false =>
      simp only [Bool.false_eq_true, if_false, ends_bind_iff] at h
      obtain ⟨outcome, v, hbuild, progress, w, hrest, h⟩ := h
      obtain ⟨rfl, rfl⟩ := ends_pure_iff.mp h
      obtain ⟨visits, hvisits, rfl⟩ := ih hrest
      refine ⟨_, .visit (ends_lift_iff.mp hcancelled) hbuild hvisits, ?_⟩
      rw [progressOf, progressOf]
      simp only [List.map_cons, List.length_cons, Nat.add_lt_add_iff_right]

namespace History

variable {visits : List (Visit σ)}

/-- **The visited targets are a prefix of all targets.** -/
theorem isPrefix (h : History builder request targets s visits t) :
    visits.map Visit.device <+: targets := by
  induction h with
  | done => exact List.nil_prefix
  | stop => exact List.nil_prefix
  | visit _ _ _ ih => exact (List.prefix_cons_inj _).mpr ih

/-- **Every visit comes to one of the outcomes of a build.** -/
theorem made (h : History builder request targets s visits t) {v : Visit σ} (hv : v ∈ visits) :
    Target.Made v.device (builder.workspace.binary request.outputs.binary v.device)
      (Target.compiles builder request v.device v.start) v.outcome := by
  induction h with
  | done => cases hv
  | stop => cases hv
  | visit _ hbuild _ ih =>
    rcases List.mem_cons.mp hv with rfl | hv
    · exact Target.made_of_ends hbuild
    · exact ih hv

end History

/-! ## What is gathered -/

theorem get?_foldl_reject (rejected : List Text) (session : Session) (key : RecordKey) :
    (rejected.foldl reject session).records.get? key =
      if key.kernel = none ∧ key.device ∈ rejected then some Record.failed
      else session.records.get? key := by
  induction rejected generalizing session with
  | nil => simp
  | cons device rejected ih =>
    rw [List.foldl_cons, ih]
    obtain ⟨device', kernel⟩ := key
    by_cases hrest : kernel = none ∧ device' ∈ rejected
    · rw [if_pos hrest, if_pos ⟨hrest.1, List.mem_cons_of_mem _ hrest.2⟩]
    · rw [if_neg hrest]
      change ((session.insert ⟨device, none⟩ Record.failed).records.get? _) = _
      rw [Session.get?_insert]
      refine if_congr ?_ rfl rfl
      simp only [RecordKey.mk.injEq, List.mem_cons]
      grind

theorem tally_foldl_reject (rejected : List Text) (session : Session) :
    (rejected.foldl reject session).tally
      = session.tally + (rejected.map fun _ => ({ failed := 1 } : Tally)).sum := by
  induction rejected generalizing session with
  | nil => exact (add_zero _).symm
  | cons device rejected ih =>
    rw [List.foldl_cons, ih, List.map_cons, List.sum_cons, ← add_assoc]
    rfl

/-- **A gathered record is that of its target, or else that of a rejected device.** -/
theorem get?_gather (hnodup : (progress.built.map Prod.fst).Nodup)
    (hof : ∀ b ∈ progress.built, b.2.session.IsOf b.1) (key : RecordKey) :
    (gather rejected progress).session.records.get? key =
      ((Keyed.last? key.device progress.built).bind fun outcome =>
          outcome.session.records.get? key).or
        (if key.kernel = none ∧ key.device ∈ rejected then some Record.failed else none) := by
  rw [gather, Session.get?_foldl_merge hnodup hof, get?_foldl_reject]
  rfl

/-- The record of a target that was built. -/
theorem get?_gather_of_mem (hnodup : (progress.built.map Prod.fst).Nodup)
    (hof : ∀ b ∈ progress.built, b.2.session.IsOf b.1) {key : RecordKey} {outcome : Target.Outcome}
    (hb : (key.device, outcome) ∈ progress.built) :
    (gather rejected progress).session.records.get? key = (outcome.session.records.get? key).or
      (if key.kernel = none ∧ key.device ∈ rejected then some Record.failed else none) := by
  rw [get?_gather hnodup hof, (Keyed.last?_eq_some_iff hnodup).mpr hb, Option.bind_some]

/-- The record of a device that was not built. -/
theorem get?_gather_of_notMem (hnodup : (progress.built.map Prod.fst).Nodup)
    (hof : ∀ b ∈ progress.built, b.2.session.IsOf b.1) {key : RecordKey}
    (hkey : key.device ∉ progress.built.map Prod.fst) :
    (gather rejected progress).session.records.get? key =
      if key.kernel = none ∧ key.device ∈ rejected then some Record.failed else none := by
  have hlast : Keyed.last? key.device progress.built = none :=
    Keyed.last?_eq_none_iff.mpr fun _ he heq => hkey (heq ▸ List.mem_map_of_mem he)
  rw [get?_gather hnodup hof, hlast, Option.bind_none, Option.none_or]

/-- A device that was neither built nor rejected has no records. -/
theorem deviceRecords_gather_eq_nil (hnodup : (progress.built.map Prod.fst).Nodup)
    (hof : ∀ b ∈ progress.built, b.2.session.IsOf b.1) {device : Text}
    (hbuilt : device ∉ progress.built.map Prod.fst) (hrejected : device ∉ rejected) :
    (gather rejected progress).session.deviceRecords device = [] := by
  by_contra hne
  obtain ⟨key, hsome, rfl⟩ := Session.deviceRecords_ne_nil_iff.mp hne
  rw [get?_gather_of_notMem hnodup hof hbuilt, if_neg fun hkey => hrejected hkey.2] at hsome
  cases hsome

/-- **The tallies of the targets and the rejected devices add up.** -/
theorem tally_gather (rejected : List Text) (progress : Progress) :
    (gather rejected progress).session.tally
      = (rejected.map fun _ => ({ failed := 1 } : Tally)).sum
        + (progress.built.map fun b => b.2.session.tally).sum := by
  rw [gather, Session.tally_foldl_merge, tally_foldl_reject]
  exact congrArg (· + _) (zero_add _)

theorem succeeded_gather : (gather rejected progress).succeeded ↔
    rejected = [] ∧ progress.isCancelled = false ∧ ∀ b ∈ progress.built, b.2.succeeded := by
  rw [gather, Bool.and_eq_true, Bool.and_eq_true, List.isEmpty_iff, Bool.not_eq_true',
    List.all_eq_true, and_assoc]

/-- **The order of the targets does not matter.** -/
theorem gather_eq_of_perm {progress' : Progress} (hperm : progress.built.Perm progress'.built)
    (hstopped : progress.isCancelled = progress'.isCancelled)
    (hnodup : (progress.built.map Prod.fst).Nodup)
    (hof : ∀ b ∈ progress.built, b.2.session.IsOf b.1) :
    gather rejected progress = gather rejected progress' := by
  have hnodup' : (progress'.built.map Prod.fst).Nodup := (hperm.map Prod.fst).nodup_iff.mp hnodup
  have hlast (device : Text) :
      Keyed.last? device progress.built = Keyed.last? device progress'.built :=
    Option.ext fun outcome => by
      rw [Keyed.last?_eq_some_iff hnodup, Keyed.last?_eq_some_iff hnodup', hperm.mem_iff]
  have hsession : (gather rejected progress).session = (gather rejected progress').session := by
    refine Session.ext_get? (fun key => ?_) ?_
    · rw [get?_gather hnodup hof, get?_gather hnodup' fun b hb => hof b (hperm.mem_iff.mpr hb), hlast]
    · rw [tally_gather, tally_gather, (hperm.map _).sum_eq]
  have hsucceeded : (gather rejected progress).succeeded = (gather rejected progress').succeeded := by
    rw [Bool.eq_iff_iff, succeeded_gather, succeeded_gather, hstopped]
    simp only [hperm.mem_iff]
  exact (Compiled.mk.injEq ..).mpr ⟨hsession, hsucceeded⟩

/-! ## A whole run -/

/-- A run from a state to another one that resolves its devices and visits some targets. -/
structure Course (builder : Builder (StateM σ)) (resolver : Resolver) (request : Request) (s : σ)
    (resolution : Resolution) (visits : List (Visit σ)) (t : σ) : Prop where
  resolved : resolver.resolve request.devices = .ok resolution
  history : History builder request resolution.targets
    ((tellAll builder.host (resolver.notices request.devices)).run s : Unit × σ).2 visits t

/-- **A run that gives an answer gathers it from its visits.** -/
theorem course_of_ends (h : Ends (compile builder resolver request).run s (.ok compiled) t) :
    ∃ resolution visits, Course builder resolver request s resolution visits t ∧
      compiled = gathered resolution visits := by
  simp only [compile, ends_step_bind_iff] at h
  obtain ⟨_, u, htold, resolution, u', hask, progress, t', hbuilt, h⟩ := h
  obtain ⟨hresolved, rfl⟩ := ends_pure_iff.mp hask
  obtain ⟨heq, rfl⟩ := ends_pure_iff.mp h
  obtain ⟨visits, hvisits, rfl⟩ := history_of_ends (ends_step_lift_iff.mp hbuilt)
  refine ⟨resolution, visits, ⟨hresolved, ?_⟩, (Except.ok.inj heq).symm⟩
  rw [ends_lift_iff.mp (ends_step_lift_iff.mp htold)]
  exact hvisits

end KernelIsa.Run
