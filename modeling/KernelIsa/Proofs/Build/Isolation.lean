import KernelIsa.Proofs.Build.History
import KernelIsa.Proofs.Build.Store

/-!
# Proofs/Build/Isolation — targets do not see one another

Where different targets write to different files (`Distinct`), and none of them to a source of
another one (`Apart`), the build of a target in a run mirrors its build from the start
(`mirrors_build`), so that a run is made up of the builds of its targets alone (`isolated_of_ends`,
`exists_ends_of_alone`).  The targets may then be built in any order, and each one leaves the
records of a run for it alone (`buildAll_isolated`), as long as the run is not cancelled between
them.

Neither condition can be left out.  A binary that goes to the source is removed before it is built,
and is missing for all targets behind; a run that is cancelled in between has built the targets that
came first (`not_isolates_selfRequest_interrupted`).
-/

namespace KernelIsa.Run

variable {σ L C : Type} {place : Path → L} {content : σ → L → C} {files : Set Path}
  {written : Set L} {builder : Builder (StateM σ)} {request : Request}
  {targets targets' rejected : List Text} {device : Text} {progress progress' : Progress}
  {s s₀ t t' : σ}

/-! ## Targets apart -/

/-- The places to which the builds of targets write, if they start in the state `s₀`. -/
def placesOf (place : Path → L) (builder : Builder (StateM σ)) (request : Request)
    (targets : List Text) (s₀ : σ) : Set L :=
  {l | ∃ device ∈ targets, ∃ p ∈ Target.outputsOf builder request device s₀, place p = l}

theorem placesOf_tail {rest : List Text} :
    placesOf place builder request rest s₀ ⊆ placesOf place builder request (device :: rest) s₀ :=
  fun _ ⟨other, hother, hp⟩ => ⟨other, List.mem_cons_of_mem _ hother, hp⟩

theorem image_subset_placesOf (hdevice : device ∈ targets) :
    place '' {p | p ∈ Target.outputsOf builder request device s₀}
      ⊆ placesOf place builder request targets s₀ :=
  fun _ ⟨p, hp, heq⟩ => ⟨device, hdevice, p, hp, heq⟩

/-- Different targets whose builds, if they start in the state `s₀`, write to different places. -/
structure Distinct (place : Path → L) (files : Set Path) (builder : Builder (StateM σ))
    (request : Request) (targets : List Text) (s₀ : σ) : Prop where
  nodup : targets.Nodup
  mem_files : ∀ device ∈ targets,
    ∀ p ∈ Target.outputsOf builder request device s₀ ++ request.sources, p ∈ files
  place_ne : ∀ device ∈ targets, ∀ other ∈ targets, device ≠ other →
    ∀ p ∈ Target.outputsOf builder request device s₀,
      ∀ q ∈ Target.outputsOf builder request other s₀, place p ≠ place q

/-- Moreover no target writes to a source while there is another one to be built from it; so what
one of them writes is neither written nor read by another one. -/
structure Apart (place : Path → L) (files : Set Path) (builder : Builder (StateM σ))
    (request : Request) (targets : List Text) (s₀ : σ) : Prop
    extends Distinct place files builder request targets s₀ where
  source_ne : ∀ device ∈ targets, ∀ other ∈ targets, device ≠ other →
    ∀ p ∈ Target.outputsOf builder request device s₀, ∀ q ∈ request.sources, place p ≠ place q

namespace Apart

theorem mono (h : Apart place files builder request targets s₀) (hnodup : targets'.Nodup)
    (hsubset : ∀ device ∈ targets', device ∈ targets) :
    Apart place files builder request targets' s₀ where
  nodup := hnodup
  mem_files device hdevice := h.mem_files device (hsubset device hdevice)
  place_ne a ha b hb := h.place_ne a (hsubset a ha) b (hsubset b hb)
  source_ne a ha b hb := h.source_ne a (hsubset a ha) b (hsubset b hb)

theorem tail {rest : List Text} (h : Apart place files builder request (device :: rest) s₀) :
    Apart place files builder request rest s₀ :=
  h.mono (List.nodup_cons.mp h.nodup).2 fun _ => List.mem_cons_of_mem _

theorem perm (h : Apart place files builder request targets s₀) (hperm : targets.Perm targets') :
    Apart place files builder request targets' s₀ :=
  h.mono (hperm.nodup_iff.mp h.nodup) fun _ => hperm.mem_iff.mpr

theorem singleton (h : Apart place files builder request targets s₀) (hdevice : device ∈ targets) :
    Apart place files builder request [device] s₀ :=
  h.mono (List.nodup_singleton device) fun _ hother => List.mem_singleton.mp hother ▸ hdevice

/-- The first target writes to other places than those where the others are built. -/
theorem place_ne_head {rest : List Text}
    (h : Apart place files builder request (device :: rest) s₀) {other : Text} (hother : other ∈ rest)
    {p q : Path} (hp : p ∈ Target.outputsOf builder request device s₀)
    (hq : q ∈ Target.outputsOf builder request other s₀ ++ request.sources) :
    place p ≠ place q := by
  have hne : device ≠ other := fun heq => (List.nodup_cons.mp h.nodup).1 (heq ▸ hother)
  have hmem : other ∈ device :: rest := List.mem_cons_of_mem _ hother
  rcases List.mem_append.mp hq with hq | hq
  · exact h.place_ne device List.mem_cons_self other hmem hne p hp q hq
  · exact h.source_ne device List.mem_cons_self other hmem hne p hp q hq

end Apart

/-- The state `s` has the contents of `s₀` where the targets are built from and to, and wherever the
run does not write. -/
structure Unspoilt (place : Path → L) (content : σ → L → C) (builder : Builder (StateM σ))
    (request : Request) (written : Set L) (targets : List Text) (s₀ s : σ) : Prop where
  seen : ∀ device ∈ targets, ∀ p ∈ Target.outputsOf builder request device s₀ ++ request.sources,
    content s (place p) = content s₀ (place p)
  kept : ∀ l ∉ written, content s l = content s₀ l

namespace Unspoilt

theorem refl : Unspoilt place content builder request written targets s₀ s₀ :=
  ⟨fun _ _ _ _ => rfl, fun _ _ => rfl⟩

theorem trans_eq (h : Unspoilt place content builder request written targets s₀ s)
    (heq : ∀ l, content t l = content s l) :
    Unspoilt place content builder request written targets s₀ t :=
  ⟨fun device hdevice p hp => (heq _).trans (h.seen device hdevice p hp),
    fun l hl => (heq l).trans (h.kept l hl)⟩

/-- What the build of the first target leaves is unspoilt for the others. -/
theorem tail {rest : List Text}
    (h : Unspoilt place content builder request written (device :: rest) s₀ s)
    (hapart : Apart place files builder request (device :: rest) s₀)
    (hwritten : placesOf place builder request (device :: rest) s₀ ⊆ written)
    (hkept : ∀ l ∉ place '' {p | p ∈ Target.outputsOf builder request device s₀},
      content t l = content s l) :
    Unspoilt place content builder request written rest s₀ t := by
  refine ⟨fun other hother p hp => ?_, fun l hl => ?_⟩
  · rw [hkept, h.seen other (List.mem_cons_of_mem _ hother) p hp]
    rintro ⟨q, hq, heq⟩
    exact hapart.place_ne_head hother hq hp heq
  · rw [hkept, h.kept l hl]
    exact fun hmem => hl (hwritten (image_subset_placesOf List.mem_cons_self hmem))

end Unspoilt

/-! ## One target -/

/-- A build in an unspoilt state does what it does from the start. -/
theorem mirrors_build (hlocal : builder.IsLocal place content files)
    (hapart : Apart place files builder request targets s₀)
    (hunspoilt : Unspoilt place content builder request written targets s₀ s)
    (hdevice : device ∈ targets) :
    Mirrors content (place '' {p | p ∈ Target.outputsOf builder request device s₀})
      (Target.build builder request device).run s₀ s := by
  refine Target.confined_outputsOf hlocal (hapart.mem_files device hdevice) s fun l hl => ?_
  rcases hl with ⟨p, hp, rfl⟩ | ⟨p, hp, rfl⟩
  · exact hunspoilt.seen device hdevice p (List.mem_append_right _ hp)
  · exact hunspoilt.seen device hdevice p (List.mem_append_left _ hp)

section Steady

variable (hsteady : builder.IsSteady content written s₀)

include hsteady

/-- Where a run has come, the answer is still that of the start, and asking changes nothing. -/
theorem mirrors_isCancelled (hkept : ∀ l ∉ written, content s l = content s₀ l) :
    Mirrors content ∅ builder.host.isCancelled s₀ s :=
  hsteady s fun l hl => hkept l (hl.resolve_right (Set.notMem_empty l))

theorem content_isCancelled (hkept : ∀ l ∉ written, content s l = content s₀ l) (l : L) :
    content (builder.host.isCancelled.run s : Bool × σ).2 l = content s l :=
  (mirrors_isCancelled hsteady hkept).kept l (Set.notMem_empty l)

/-- A run that is not cancelled builds its first target, and then the others. -/
theorem ends_cons_iff (hgoes : (builder.host.isCancelled.run s₀ : Bool × σ).1 = false)
    (hkept : ∀ l ∉ written, content s l = content s₀ l) {rest : List Text} :
    Ends (buildAll builder request (device :: rest)) s progress t ↔ ∃ outcome u progress',
      Ends (Target.build builder request device) (builder.host.isCancelled.run s : Bool × σ).2
        outcome u ∧
      Ends (buildAll builder request rest) u progress' t ∧
      progress = { progress' with built := (device, outcome) :: progress'.built } := by
  have hask : (builder.host.isCancelled.run s : Bool × σ) = (false, _) :=
    Prod.ext ((mirrors_isCancelled hsteady hkept).answer.trans hgoes) rfl
  rw [buildAll, ends_bind_iff]
  constructor
  · rintro ⟨isCancelled, u, hcancelled, h⟩
    rw [ends_lift_iff, hask, Prod.mk.injEq] at hcancelled
    obtain ⟨rfl, rfl⟩ := hcancelled
    simp only [Bool.false_eq_true, if_false, ends_bind_iff] at h
    obtain ⟨outcome, u, hbuild, progress', v, hrest, h⟩ := h
    obtain ⟨rfl, rfl⟩ := ends_pure_iff.mp h
    exact ⟨outcome, u, progress', hbuild, hrest, rfl⟩
  · rintro ⟨outcome, u, progress', hbuild, hrest, rfl⟩
    refine ⟨false, _, ends_lift_iff.mpr hask, ends_bind_iff.mpr ⟨outcome, u, hbuild, ?_⟩⟩
    exact ends_bind_iff.mpr ⟨progress', t, hrest, ends_pure_iff.mpr ⟨rfl, rfl⟩⟩

end Steady

/-! ## All targets -/

/-- What building targets from the state `s` comes to, compared with the builds of each of them from
`s₀`. -/
structure Isolated (place : Path → L) (content : σ → L → C) (builder : Builder (StateM σ))
    (request : Request) (targets : List Text) (s₀ s : σ) (progress : Progress) (t : σ) : Prop where
  isCancelled : progress.isCancelled = false
  devices : progress.built.map Prod.fst = targets
  alone : ∀ b ∈ progress.built, ∃ u, Ends (Target.build builder request b.1) s₀ b.2 u ∧
    ∀ p ∈ Target.outputsOf builder request b.1 s₀, content t (place p) = content u (place p)
  kept : ∀ l ∉ placesOf place builder request targets s₀, content t l = content s l

section Loop

variable (hlocal : builder.IsLocal place content files)
  (hsteady : builder.IsSteady content written s₀)
  (hgoes : (builder.host.isCancelled.run s₀ : Bool × σ).1 = false)

include hlocal hsteady hgoes

/-- **In a run each target does what it does alone.** -/
theorem isolated_of_ends (hapart : Apart place files builder request targets s₀)
    (hwritten : placesOf place builder request targets s₀ ⊆ written)
    (hunspoilt : Unspoilt place content builder request written targets s₀ s)
    (h : Ends (buildAll builder request targets) s progress t) :
    Isolated place content builder request targets s₀ s progress t := by
  induction targets generalizing s progress with
  | nil =>
    obtain ⟨rfl, rfl⟩ := ends_pure_iff.mp h
    exact ⟨rfl, rfl, fun _ hb => (List.not_mem_nil hb).elim, fun _ _ => rfl⟩
  | cons device rest ih =>
    obtain ⟨outcome, v, progress, hbuild, hrest, rfl⟩ :=
      (ends_cons_iff hsteady hgoes hunspoilt.kept).mp h
    have hasked := hunspoilt.trans_eq (content_isCancelled hsteady hunspoilt.kept)
    obtain ⟨u, hu, hagree, hkept⟩ :=
      (mirrors_build hlocal hapart hasked List.mem_cons_self).exists_ends hbuild
    have hrest := ih hapart.tail (placesOf_tail.trans hwritten)
      (hasked.tail hapart hwritten hkept) hrest
    refine ⟨hrest.isCancelled, ?_, fun b hb => ?_, fun l hl => ?_⟩
    · rw [List.map_cons, hrest.devices]
    · rcases List.mem_cons.mp hb with rfl | hb
      · refine ⟨u, hu, fun p hp => ?_⟩
        -- the files of this target are out of reach for the targets behind it
        rw [hrest.kept, hagree _ (Set.mem_image_of_mem place hp)]
        rintro ⟨other, hother, q, hq, heq⟩
        exact hapart.place_ne_head hother hp (List.mem_append_left _ hq) heq.symm
      · exact hrest.alone b hb
    · rw [hrest.kept l fun hmem => hl (placesOf_tail hmem), hkept,
        content_isCancelled hsteady hunspoilt.kept]
      exact fun hmem => hl (image_subset_placesOf List.mem_cons_self hmem)

/-- **A run comes to its end if each of its targets does alone.** -/
theorem exists_ends_of_alone (hapart : Apart place files builder request targets s₀)
    (hwritten : placesOf place builder request targets s₀ ⊆ written)
    (hunspoilt : Unspoilt place content builder request written targets s₀ s)
    (halone : ∀ device ∈ targets, ∃ outcome u,
      Ends (Target.build builder request device) s₀ outcome u) :
    ∃ progress t, Ends (buildAll builder request targets) s progress t := by
  induction targets generalizing s with
  | nil => exact ⟨_, s, ends_pure_iff.mpr ⟨rfl, rfl⟩⟩
  | cons device rest ih =>
    have hasked := hunspoilt.trans_eq (content_isCancelled hsteady hunspoilt.kept)
    have hmirrors := mirrors_build hlocal hapart hasked List.mem_cons_self
    obtain ⟨outcome, u, hu⟩ := halone device List.mem_cons_self
    obtain ⟨v, hbuild⟩ := hmirrors.ends hu
    obtain ⟨_, -, -, hkept⟩ := hmirrors.exists_ends hbuild
    obtain ⟨progress, t, hrest⟩ := ih hapart.tail (placesOf_tail.trans hwritten)
      (hasked.tail hapart hwritten hkept)
      fun other hother => halone other (List.mem_cons_of_mem _ hother)
    exact ⟨_, t,
      (ends_cons_iff hsteady hgoes hunspoilt.kept).mpr ⟨outcome, v, progress, hbuild, hrest, rfl⟩⟩

end Loop

namespace Isolated

theorem device_mem (h : Isolated place content builder request targets s₀ s progress t)
    {b : Text × Target.Outcome} (hb : b ∈ progress.built) : b.1 ∈ targets :=
  h.devices ▸ List.mem_map_of_mem hb

theorem exists_built (h : Isolated place content builder request targets s₀ s progress t)
    (hdevice : device ∈ targets) : ∃ outcome, (device, outcome) ∈ progress.built := by
  rw [← h.devices] at hdevice
  obtain ⟨⟨_, outcome⟩, hb, rfl⟩ := List.mem_map.mp hdevice
  exact ⟨outcome, hb⟩

theorem exists_ends (h : Isolated place content builder request targets s₀ s progress t)
    (hdevice : device ∈ targets) :
    ∃ outcome u, Ends (Target.build builder request device) s₀ outcome u := by
  obtain ⟨outcome, hb⟩ := h.exists_built hdevice
  obtain ⟨u, hu, -⟩ := h.alone _ hb
  exact ⟨outcome, u, hu⟩

/-- Two runs from one state agree on the outcome of a target. -/
theorem outcome_unique (h : Isolated place content builder request targets s₀ s progress t)
    (h' : Isolated place content builder request targets' s₀ s progress' t')
    {outcome outcome' : Target.Outcome} (hb : (device, outcome) ∈ progress.built)
    (hb' : (device, outcome') ∈ progress'.built) : outcome = outcome' := by
  obtain ⟨_, hu, -⟩ := h.alone _ hb
  obtain ⟨_, hu', -⟩ := h'.alone _ hb'
  exact (hu.unique hu').1

theorem nodup_built (h : Isolated place content builder request targets s₀ s progress t)
    (hnodup : targets.Nodup) : (progress.built.map Prod.fst).Nodup := h.devices ▸ hnodup

theorem isOf_built (h : Isolated place content builder request targets s₀ s progress t)
    {b : Text × Target.Outcome} (hb : b ∈ progress.built) : b.2.session.IsOf b.1 := by
  obtain ⟨_, hu, -⟩ := h.alone b hb
  exact (Target.made_of_ends hu).isOf

theorem mem_built_of_mem (h : Isolated place content builder request targets s₀ s progress t)
    (h' : Isolated place content builder request targets' s₀ s progress' t')
    (hsubset : ∀ device ∈ targets, device ∈ targets') {b : Text × Target.Outcome}
    (hb : b ∈ progress.built) : b ∈ progress'.built := by
  obtain ⟨outcome, hb'⟩ := h'.exists_built (hsubset _ (h.device_mem hb))
  rw [← h.outcome_unique h' hb hb'] at hb'
  exact hb'

/-- **The records, the tally and the answer do not depend on the order of the targets.** -/
theorem gather_eq (h : Isolated place content builder request targets s₀ s progress t)
    (h' : Isolated place content builder request targets' s₀ s progress' t')
    (hnodup : targets.Nodup) (hperm : targets.Perm targets') :
    gather rejected progress = gather rejected progress' := by
  have hbuilt := h.nodup_built hnodup
  have hbuilt' := h'.nodup_built (hperm.nodup_iff.mp hnodup)
  refine gather_eq_of_perm ?_ (h.isCancelled.trans h'.isCancelled.symm) hbuilt fun _ => h.isOf_built
  refine (List.perm_ext_iff_of_nodup hbuilt.of_map hbuilt'.of_map).mpr fun b => ⟨?_, ?_⟩
  · exact h.mem_built_of_mem h' fun _ => hperm.mem_iff.mp
  · exact h'.mem_built_of_mem h fun _ => hperm.mem_iff.mpr

/-- **Nor do the contents of the files.** -/
theorem content_eq (h : Isolated place content builder request targets s₀ s progress t)
    (h' : Isolated place content builder request targets' s₀ s progress' t')
    (hperm : targets.Perm targets') (l : L) : content t l = content t' l := by
  by_cases hl : l ∈ placesOf place builder request targets s₀
  · obtain ⟨device, hdevice, p, hp, rfl⟩ := hl
    obtain ⟨outcome, hb⟩ := h.exists_built hdevice
    obtain ⟨u, hu, hcontent⟩ := h.alone _ hb
    obtain ⟨u', hu', hcontent'⟩ := h'.alone _ (h.mem_built_of_mem h' (fun _ => hperm.mem_iff.mp) hb)
    rw [hcontent p hp, hcontent' p hp, (hu.unique hu').2]
  · rw [h.kept l hl, h'.kept l]
    exact fun ⟨device, hdevice, hp⟩ => hl ⟨device, hperm.mem_iff.mpr hdevice, hp⟩

/-- **A target leaves the records that it leaves alone.** -/
theorem deviceRecords_eq (h : Isolated place content builder request targets s₀ s progress t)
    (h' : Isolated place content builder request [device] s₀ s progress' t')
    (hnodup : targets.Nodup) (hdevice : device ∈ targets) (hrejected : device ∉ rejected) :
    (gather rejected progress).session.deviceRecords device
      = (gather [] progress').session.deviceRecords device := by
  obtain ⟨outcome, hb⟩ := h.exists_built hdevice
  obtain ⟨outcome', hb'⟩ := h'.exists_built (List.mem_singleton_self device)
  obtain rfl := h.outcome_unique h' hb hb'
  refine Session.deviceRecords_congr fun key hkey => ?_
  subst hkey
  rw [get?_gather_of_mem (h.nodup_built hnodup) (fun _ => h.isOf_built) hb,
    get?_gather_of_mem (h'.nodup_built (List.nodup_singleton _)) (fun _ => h'.isOf_built) hb',
    if_neg fun hkey => hrejected hkey.2, if_neg fun hkey => List.not_mem_nil hkey.2]

end Isolated

/-! ## Any order -/

/-- The targets are isolated from each other.  If building them comes to its end, it does so in any
order: records, tally, answer and the contents of all files are the same, and the records of each
target are those of a run for it alone. -/
def Isolates (content : σ → L → C) (builder : Builder (StateM σ)) (request : Request)
    (rejected targets : List Text) (s : σ) : Prop :=
  ∀ targets' progress t, targets.Perm targets' →
    Ends (buildAll builder request targets) s progress t →
    ∃ progress' t', Ends (buildAll builder request targets') s progress' t' ∧
      gather rejected progress = gather rejected progress' ∧
      (∀ l, content t l = content t' l) ∧
      ∀ device ∈ targets, ∃ alone u, Ends (buildAll builder request [device]) s alone u ∧
        (gather rejected progress).session.deviceRecords device
          = (gather [] alone).session.deviceRecords device

/-- Telling something comes to its end and changes nothing. -/
theorem exists_ends_tell (hlocal : builder.IsLocal place content files) {α : Type} (notice : Notice)
    (a : α) (s : σ) :
    ∃ t, Ends (do builder.host.tell notice; return a : Checked (StateM σ) α) s a t ∧
      ∀ l, content t l = content s l := by
  have htell := hlocal.tell s notice s fun _ _ => rfl
  refine ⟨((builder.host.tell notice).run s : Unit × σ).2, ?_, fun l => htell.kept l fun h => h.elim⟩
  exact ends_bind_iff.mpr ⟨(), _, ends_lift_iff.mpr rfl, ends_pure_iff.mpr ⟨rfl, rfl⟩⟩

/-- A run that is cancelled from the start builds nothing. -/
theorem exists_ends_of_cancelled (hlocal : builder.IsLocal place content files)
    (hsteady : builder.IsSteady content written s)
    (hcancelled : (builder.host.isCancelled.run s : Bool × σ).1 = true) (targets : List Text) :
    ∃ t, Ends (buildAll builder request targets) s ⟨[], !targets.isEmpty⟩ t ∧
      ∀ l, content t l = content s l := by
  cases targets with
  | nil => exact ⟨s, ends_pure_iff.mpr ⟨rfl, rfl⟩, fun _ => rfl⟩
  | cons device rest =>
    have hask : (builder.host.isCancelled.run s : Bool × σ) = (true, _) := Prod.ext hcancelled rfl
    obtain ⟨t, ht, hcontent⟩ := exists_ends_tell hlocal _ _ _
    refine ⟨t, ends_bind_iff.mpr ⟨true, _, ends_lift_iff.mpr hask, ht⟩, fun l => ?_⟩
    rw [hcontent, content_isCancelled hsteady fun _ _ => rfl]

/-- A run for one target of a run comes to its end and leaves the records of that target. -/
theorem exists_alone (hlocal : builder.IsLocal place content files)
    (hsteady : builder.IsSteady content (placesOf place builder request targets s) s)
    (hgoes : (builder.host.isCancelled.run s : Bool × σ).1 = false)
    (hapart : Apart place files builder request targets s)
    (h : Isolated place content builder request targets s s progress t)
    (hdevice : device ∈ targets) (hrejected : device ∉ rejected) :
    ∃ alone u, Ends (buildAll builder request [device]) s alone u ∧
      (gather rejected progress).session.deviceRecords device
        = (gather [] alone).session.deviceRecords device := by
  have hapart' := hapart.singleton hdevice
  have hwritten : placesOf place builder request [device] s
      ⊆ placesOf place builder request targets s :=
    fun _ ⟨other, hother, hp⟩ => ⟨other, List.mem_singleton.mp hother ▸ hdevice, hp⟩
  obtain ⟨alone, u, hu⟩ := exists_ends_of_alone hlocal hsteady hgoes hapart' hwritten .refl
    fun other hother => h.exists_ends (List.mem_singleton.mp hother ▸ hdevice)
  have h' := isolated_of_ends hlocal hsteady hgoes hapart' hwritten .refl hu
  exact ⟨alone, u, hu, h.deviceRecords_eq h' hapart.nodup hdevice hrejected⟩

/-- **Targets that lie apart are isolated from each other**, unless the run is cancelled between
them. -/
theorem buildAll_isolated (hlocal : builder.IsLocal place content files)
    (hsteady : builder.IsSteady content (placesOf place builder request targets s) s)
    (hapart : Apart place files builder request targets s)
    (hrejected : ∀ device ∈ targets, device ∉ rejected) :
    Isolates content builder request rejected targets s := by
  intro targets' progress t hperm h
  cases hcancelled : (builder.host.isCancelled.run s : Bool × σ).1 with
  | false =>
    have hwritten : placesOf place builder request targets' s
        ⊆ placesOf place builder request targets s :=
      fun _ ⟨device, hdevice, hp⟩ => ⟨device, hperm.mem_iff.mpr hdevice, hp⟩
    have hisolated := isolated_of_ends hlocal hsteady hcancelled hapart .rfl .refl h
    obtain ⟨progress', t', h'⟩ :=
      exists_ends_of_alone hlocal hsteady hcancelled (hapart.perm hperm) hwritten .refl
        fun device hdevice => hisolated.exists_ends (hperm.mem_iff.mpr hdevice)
    have hisolated' :=
      isolated_of_ends hlocal hsteady hcancelled (hapart.perm hperm) hwritten .refl h'
    exact ⟨progress', t', h', hisolated.gather_eq hisolated' hapart.nodup hperm,
      hisolated.content_eq hisolated' hperm, fun device hdevice =>
        exists_alone hlocal hsteady hcancelled hapart hisolated hdevice (hrejected device hdevice)⟩
  | true =>
    have hnothing (rejected : List Text) (b : Bool) {device : Text} (hnot : device ∉ rejected) :
        (gather rejected ⟨[], b⟩).session.deviceRecords device = [] := by
      refine deviceRecords_gather_eq_nil ?_ ?_ ?_ hnot
      · exact List.nodup_nil
      · exact fun _ hb => (List.not_mem_nil hb).elim
      · exact List.not_mem_nil
    obtain ⟨v, hv, hcontent⟩ := exists_ends_of_cancelled hlocal hsteady hcancelled targets
    obtain ⟨rfl, rfl⟩ := h.unique hv
    obtain ⟨t', h', hcontent'⟩ := exists_ends_of_cancelled hlocal hsteady hcancelled targets'
    refine ⟨_, t', h', ?_, fun l => (hcontent l).trans (hcontent' l).symm, fun device hdevice => ?_⟩
    · rw [hperm.isEmpty_eq]
    · obtain ⟨u, hu, -⟩ := exists_ends_of_cancelled hlocal hsteady hcancelled [device]
      exact ⟨_, u, hu, by rw [hnothing _ _ (hrejected _ hdevice), hnothing _ _ List.not_mem_nil]⟩

/-- Tools that put the device in front of the sources, and disassemble for all devices but one. -/
def sampleTools : PureTools where
  compile device _ sources :=
    ⟨.ok ⟨true, [], [], []⟩, some (Utf8.encode device ++ (sources.filterMap id).flatten)⟩
  compileIntermediate device _ source :=
    ⟨.ok ⟨true, [], [], []⟩, some (Utf8.encode device ++ source.getD [])⟩
  disassemble binary device _ :=
    .ok ⟨binary.isSome && device ≠ "gfx906".toList, [],
      "\n0 <k>:\n\ts_nop // 0: BF\n\ts_nop_e32 // 4: BF\n".toList, []⟩
  kernelNames _ := .ok [['k']]
  codeSize _ _ := .ok (some 4)

/-- The builder of the sample tools. -/
def sampleBuilder : Builder (StateM Store) :=
  Store.builder sampleTools .builtin ⟨Path.ofText "tmp".toList, ['1']⟩

/-- A request for intermediate code and listings. -/
def sampleRequest : Request where
  sources := [Path.ofText "k.cl".toList]
  outputs :=
    { intermediate := some (Path.ofText "k.ll".toList)
      listing := some (Path.ofText "k.isa".toList) }

/-- A store with the source. -/
def sampleStore : Store := fun p => if p = Path.ofText "k.cl".toList then some [0x6B] else none

/-- Two targets. -/
def sampleTargets : List Text := ["gfx900".toList, "gfx906".toList]

/-- Two targets of which one fails. -/
theorem buildAll_isolated_sampleStore :
    sampleBuilder.IsLocal id (fun store p => store p) Set.univ ∧
    sampleBuilder.IsSteady (fun store p => store p)
      (placesOf id sampleBuilder sampleRequest sampleTargets sampleStore) sampleStore ∧
    Apart id Set.univ sampleBuilder sampleRequest sampleTargets sampleStore ∧
    (∀ device ∈ sampleTargets, device ∉ ["nonesuch".toList]) ∧
    (∃ progress t, Ends (buildAll sampleBuilder sampleRequest sampleTargets) sampleStore progress t ∧
      progress.built.map (fun b => b.2.succeeded) = [true, false]) ∧
    Isolates (fun store p => store p) sampleBuilder sampleRequest ["nonesuch".toList] sampleTargets
      sampleStore := by
  have hlocal : sampleBuilder.IsLocal id (fun store p => store p) Set.univ :=
    Store.isLocal_builder _ _ _
  have hsteady : sampleBuilder.IsSteady (fun store p => store p)
      (placesOf id sampleBuilder sampleRequest sampleTargets sampleStore) sampleStore :=
    Store.isSteady_builder _ _ _ _ _
  have hapart : Apart id Set.univ sampleBuilder sampleRequest sampleTargets sampleStore :=
    { nodup := by decide
      mem_files := fun _ _ _ _ => Set.mem_univ _
      place_ne := by decide +kernel
      source_ne := by decide +kernel }
  have hrejected : ∀ device ∈ sampleTargets, device ∉ ["nonesuch".toList] := by decide
  obtain ⟨progress, t, h, hsucceeded⟩ := exists_ends_of_givesSome (s := sampleStore)
    (x := buildAll sampleBuilder sampleRequest sampleTargets)
    (p := fun progress => progress.built.map (fun b => b.2.succeeded) == [true, false])
    (by decide +kernel)
  exact ⟨hlocal, hsteady, hapart, hrejected, ⟨progress, t, h, eq_of_beq hsucceeded⟩,
    buildAll_isolated hlocal hsteady hapart hrejected⟩

/-! ## Targets that are not isolated -/

/-- Targets are not isolated if two orders of them differ in what is gathered. -/
theorem not_isolates_of_gathered (test : Compiled → Bool) (hperm : targets.Perm targets')
    (h : givesSome (fun progress => test (gather rejected progress))
      (buildAll builder request targets) s)
    (h' : givesSome (fun progress => !test (gather rejected progress))
      (buildAll builder request targets') s) :
    ¬ Isolates content builder request rejected targets s := by
  intro hisolates
  obtain ⟨progress, t, hends, htest⟩ := exists_ends_of_givesSome h
  obtain ⟨progress', t', hends', htest'⟩ := exists_ends_of_givesSome h'
  obtain ⟨other, u, hother, hgathered, -⟩ := hisolates targets' progress t hperm hends
  obtain ⟨rfl, -⟩ := hother.unique hends'
  rw [hgathered] at htest
  rw [htest] at htest'
  cases htest'

/-- The builder whose run is cancelled as soon as the compiler was called; the state has beside it
whether that happened. -/
def interrupted (builder : Builder (StateM σ)) : Builder (StateM (σ × Bool)) where
  host := { builder.host.along beside with isCancelled := fun s => (s.2, s) }
  services :=
    { builder.services.along beside with
      compile := fun device options sources output => do
        modify fun s => (s.1, true)
        beside (builder.services.compile device options sources output) }
  compilerNames := builder.compilerNames
  workspace := builder.workspace

/-- The cancellation is no answer of a service and touches no file. -/
theorem isLocal_interrupted (h : builder.IsLocal place content files) :
    (interrupted builder).IsLocal place (fun s => content s.1) files where
  tell s notice := (h.tell s.1 notice).beside s.2
  isPresent s p hp := (h.isPresent s.1 p hp).beside s.2
  remove s p hp := (h.remove s.1 p hp).beside s.2
  write s bytes p hp := (h.write s.1 bytes p hp).beside s.2
  compile s device options sources output hfiles := by
    have hmodify : Confined (fun u : σ × Bool => content u.1) (place '' {p | p ∈ sources})
        (place '' {output}) s (modify fun u => (u.1, true)) :=
      fun u hu => ⟨rfl, fun l hl => hu l (.inr hl), fun _ _ => rfl⟩
    exact hmodify.bind ((h.compile s.1 device options sources output hfiles).beside true)
  compileIntermediate s device options source output hfiles :=
    (h.compileIntermediate s.1 device options source output hfiles).beside s.2
  disassemble s device lineNumbers binary hbinary :=
    (h.disassemble s.1 device lineNumbers binary hbinary).beside s.2
  kernelNames s binary hbinary := (h.kernelNames s.1 binary hbinary).beside s.2
  codeSize s kernel binary hbinary := (h.codeSize s.1 kernel binary hbinary).beside s.2

/-- The sample tools, with a compiler that needs all of its sources. -/
def needyBuilder : Builder (StateM Store) :=
  Store.builder
    { sampleTools with
      compile := fun device _ sources =>
        if sources.all Option.isSome then ⟨.ok ⟨true, [], [], []⟩, some (Utf8.encode device)⟩
        else ⟨.ok ⟨false, "exit status: 1".toList, [], []⟩, none⟩ }
    .builtin ⟨Path.ofText "tmp".toList, ['1']⟩

/-- The binary of the first target. -/
def firstBinary : Path := Path.ofText "k-gfx900.bin".toList

/-- A request with the binary of the first target as its source. -/
def selfRequest : Request where
  sources := [firstBinary]
  outputs := { binary := some (Path.ofText "k.bin".toList) }

/-- A store with that source. -/
def selfStore : Store := fun p => if p = firstBinary then some [0x6B] else none

/-- **Targets that write to different places need not be isolated.**  The first target removes the
source of the second one if its binary goes there: built first it makes both fail, built last only
itself.  And where the first compilation has the run cancelled, the target built is the one that
comes first. -/
theorem not_isolates_selfRequest_interrupted :
    (needyBuilder.IsLocal id (fun store p => store p) Set.univ ∧
      needyBuilder.IsSteady (fun store p => store p)
        (placesOf id needyBuilder selfRequest sampleTargets selfStore) selfStore ∧
      Distinct id Set.univ needyBuilder selfRequest sampleTargets selfStore ∧
      ¬ Isolates (fun store p => store p) needyBuilder selfRequest [] sampleTargets selfStore) ∧
    ((interrupted sampleBuilder).IsLocal id (fun s p => s.1 p) Set.univ ∧
      Apart id Set.univ (interrupted sampleBuilder) sampleRequest sampleTargets
        (sampleStore, false) ∧
      ¬ Isolates (fun s p => s.1 p) (interrupted sampleBuilder) sampleRequest [] sampleTargets
        (sampleStore, false)) := by
  refine ⟨⟨Store.isLocal_builder _ _ _, Store.isSteady_builder _ _ _ _ _, ?_, ?_⟩,
    isLocal_interrupted (Store.isLocal_builder _ _ _), ?_, ?_⟩
  · exact {
      nodup := by decide
      mem_files := fun _ _ _ _ => Set.mem_univ _
      place_ne := by decide +kernel }
  · exact not_isolates_of_gathered (fun compiled => compiled.session.tally.compiled == 0)
      (.swap _ _ _) (by decide +kernel) (by decide +kernel)
  · exact {
      nodup := by decide
      mem_files := fun _ _ _ _ => Set.mem_univ _
      place_ne := by decide +kernel
      source_ne := by decide +kernel }
  · exact not_isolates_of_gathered
      (fun compiled => (compiled.session.deviceRecords "gfx906".toList).isEmpty)
      (.swap _ _ _) (by decide +kernel) (by decide +kernel)

end KernelIsa.Run
