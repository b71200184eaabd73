import KernelIsa.Proofs.Device.Requests
import Mathlib.Data.List.Sort

/-!
# Proofs/Device/SingleDevices — a request as its devices one by one

A device on its own is resolved to its verdict (`resolve_singleton`), and a request to what its
devices are resolved to on their own (`AddsUp`): the targets are put together, while the rejected
and the unverified names are listed device by device.  So the order and the repetitions of a request
leave its targets alone, and a rejected device leaves no trace but its name (`resolve_each`).
-/

namespace KernelIsa

/-- The resolution of a verdict on its own. -/
def Verdict.alone : Verdict → Except Fault Resolution
  | .verified target => .ok ⟨[target], [], []⟩
  | .unverified target => .ok ⟨[target], [], [target]⟩
  | .rejected _ => .error .noTargets

namespace Resolver

variable {resolver : Resolver} {devices devices' : List Text} {device target : Text}
  {verdicts verdicts' : List Verdict}

/-! ## One device -/

/-- **A device on its own is resolved to its verdict.** -/
theorem resolve_singleton (resolver : Resolver) (device : Text) :
    resolver.resolve [device] = (resolver.judge device).alone := by
  rw [resolve, List.isEmpty_cons, if_neg Bool.false_ne_true, List.map_singleton]
  cases resolver.judge device <;> rfl

/-- Whether a device on its own is resolved to nothing. -/
def rejects (resolver : Resolver) (device : Text) : Bool := !(resolver.resolve [device]).isOk

/-- The unverified names of a device on its own. -/
def trusted (resolver : Resolver) (device : Text) : List Text :=
  (resolver.resolve [device]).toOption.elim [] Resolution.unverified

theorem rejected_of_judge {name : Text} (h : resolver.judge device = .rejected name) :
    name = Text.lower device := by
  rw [judge] at h
  split at h
  · cases h
  · split at h
    · cases h
    · exact (Verdict.rejected.inj h).symm

theorem rejects_iff : resolver.rejects device ↔ (resolver.judge device).target? = none := by
  rw [rejects, resolve_singleton]
  cases resolver.judge device <;> simp [Verdict.alone, Verdict.target?, Except.isOk, Except.toBool]

/-- **The rejected name of a device** is the device in small letters. -/
theorem rejected?_judge (resolver : Resolver) (device : Text) : (resolver.judge device).rejected?
    = if resolver.rejects device then some (Text.lower device) else none := by
  rw [rejects, resolve_singleton]
  cases h : resolver.judge device with
  | rejected name => rw [rejected_of_judge h]; rfl
  | _ => rfl

theorem trusted_eq (resolver : Resolver) (device : Text) :
    resolver.trusted device = (resolver.judge device).unverified?.toList := by
  rw [trusted, resolve_singleton]
  cases resolver.judge device <;> rfl

/-- A target of a device on its own is that of its verdict. -/
theorem exists_alone_iff :
    (∃ alone, resolver.resolve [device] = .ok alone ∧ target ∈ alone.targets) ↔
      (resolver.judge device).target? = some target := by
  rw [resolve_singleton]
  cases resolver.judge device <;> simp [Verdict.alone, Verdict.target?, eq_comm]

/-! ## Several devices -/

/-- A resolution is made of what the devices of a request are resolved to on their own. -/
structure AddsUp (resolver : Resolver) (devices : List Text) (resolution : Resolution) : Prop where
  /-- The targets are sorted and each there once. -/
  sorted : resolution.targets.Pairwise fun a b => compare a b = .lt
  mem_targets_iff (target : Text) : target ∈ resolution.targets ↔ ∃ device ∈ devices,
    ∃ alone, resolver.resolve [device] = .ok alone ∧ target ∈ alone.targets
  rejected_eq : resolution.rejected = (devices.filter resolver.rejects).map Text.lower
  unverified_eq : resolution.unverified = devices.flatMap resolver.trusted
  unverified_subset : ∀ name ∈ resolution.unverified, name ∈ resolution.targets

theorem rejected_gather (resolver : Resolver) (devices : List Text) :
    (gather (devices.map resolver.judge)).rejected
      = (devices.filter resolver.rejects).map Text.lower := by
  change (devices.map resolver.judge).filterMap Verdict.rejected? = _
  rw [List.filterMap_map, ← List.filterMap_eq_map, List.filterMap_filter]
  exact List.filterMap_congr fun device _ => rejected?_judge resolver device

theorem unverified_gather (resolver : Resolver) (devices : List Text) :
    (gather (devices.map resolver.judge)).unverified = devices.flatMap resolver.trusted := by
  change (devices.map resolver.judge).filterMap Verdict.unverified? = _
  rw [List.filterMap_map, List.filterMap_eq_flatMap_toList]
  exact List.flatMap_congr fun device _ => (trusted_eq resolver device).symm

/-- **The verdicts of a request add up.** -/
theorem addsUp_gather (resolver : Resolver) (devices : List Text) :
    AddsUp resolver devices (gather (devices.map resolver.judge)) where
  sorted := Keyed.pairwise_keys _
  mem_targets_iff target := by
    simp only [mem_targets_gather_iff, List.mem_map, exists_exists_and_eq_and, exists_alone_iff]
  rejected_eq := rejected_gather resolver devices
  unverified_eq := unverified_gather resolver devices
  unverified_subset name h := mem_targets_gather_iff.mpr ⟨_, mem_unverified_gather_iff.mp h, rfl⟩

/-- A request that names devices is resolved to what its verdicts gather, or fails. -/
theorem resolve_eq (h : devices ≠ []) : resolver.resolve devices =
    if (gather (devices.map resolver.judge)).targets.isEmpty then .error .noTargets
    else .ok (gather (devices.map resolver.judge)) := by
  rw [resolve, List.isEmpty_eq_false_iff.mpr h, if_neg Bool.false_ne_true]

/-- **A request fails exactly if all of its devices are rejected.** -/
theorem resolve_eq_error_iff (h : devices ≠ []) :
    resolver.resolve devices = .error .noTargets ↔ ∀ device ∈ devices, resolver.rejects device := by
  have hok : (∃ resolution, resolver.resolve devices = .ok resolution) ↔ _ := exists_resolve_iff h
  have hsome : (∀ device ∈ devices, resolver.rejects device) ↔
      ¬ ∃ device ∈ devices, ∃ target, (resolver.judge device).target? = some target := by
    simp only [rejects_iff, Option.eq_none_iff_forall_ne_some, not_exists, not_and, ne_eq]
  rw [hsome, ← hok, resolve_eq h]
  split <;> simp

/-! ## Order and repetitions -/

/-- Resolutions of the same targets have the same list of them. -/
theorem targets_gather_congr (h : ∀ target, (∃ verdict ∈ verdicts, verdict.target? = some target) ↔
    ∃ verdict ∈ verdicts', verdict.target? = some target) :
    (gather verdicts).targets = (gather verdicts').targets := by
  have : Std.Irrefl fun a b : Text => compare a b = .lt := ⟨fun a => by simp⟩
  have : Std.Antisymm fun a b : Text => compare a b = .lt :=
    ⟨fun a b hab hba => absurd (Std.OrientedCmp.gt_of_lt hab) (by simp [hba])⟩
  refine (Keyed.pairwise_keys _).eq_of_mem_iff (Keyed.pairwise_keys _) fun target => ?_
  exact mem_targets_gather_iff.trans ((h target).trans mem_targets_gather_iff.symm)

theorem map_targets_resolve (h : devices ≠ []) :
    (resolver.resolve devices).map Resolution.targets
      = if (gather (devices.map resolver.judge)).targets.isEmpty then .error .noTargets
        else .ok (gather (devices.map resolver.judge)).targets := by
  rw [resolve_eq h]
  split <;> rfl

/-- **Requests for the same devices have the same targets**, in any order and however often. -/
theorem map_targets_resolve_congr (h : devices ≠ [])
    (hmem : ∀ device, device ∈ devices' ↔ device ∈ devices) :
    (resolver.resolve devices').map Resolution.targets
      = (resolver.resolve devices).map Resolution.targets := by
  have h' : devices' ≠ [] := by
    obtain ⟨device, hdevice⟩ := List.exists_mem_of_ne_nil _ h
    exact List.ne_nil_of_mem ((hmem device).mpr hdevice)
  have htargets : (gather (devices'.map resolver.judge)).targets
      = (gather (devices.map resolver.judge)).targets :=
    targets_gather_congr fun target => by simp only [List.mem_map, hmem]
  rw [map_targets_resolve h', map_targets_resolve h, htargets]

/-- One device that is not rejected lets a request be resolved. -/
theorem resolve_of_not_rejects (hdevice : device ∈ devices) (h : ¬ resolver.rejects device) :
    resolver.resolve devices = .ok (gather (devices.map resolver.judge)) := by
  refine (resolve_eq_ok_iff (List.ne_nil_of_mem hdevice)).mpr ⟨rfl, fun hnil => h ?_⟩
  refine rejects_iff.mpr (Option.eq_none_iff_forall_ne_some.mpr fun target htarget => ?_)
  have hmem := mem_targets_gather_iff.mpr ⟨_, List.mem_map_of_mem hdevice, htarget⟩
  exact List.not_mem_nil (hnil ▸ hmem)

theorem trusted_of_rejects (h : resolver.rejects device) : resolver.trusted device = [] := by
  have hnone := rejects_iff.mp h
  rw [trusted_eq]
  cases hjudge : resolver.judge device with
  | unverified target => rw [hjudge] at hnone; cases hnone
  | _ => rfl

/-- `first` differs from `second` by one rejected name more, that of `device`. -/
structure NamesBesides (first second : Resolution) (device : Text) : Prop where
  targets_eq : first.targets = second.targets
  unverified_eq : first.unverified = second.unverified
  rejected_eq : ∃ before after, first.rejected = before ++ Text.lower device :: after ∧
    second.rejected = before ++ after

/-- **A rejected device leaves no trace but its name.** -/
theorem namesBesides_gather (before after : List Text) (h : resolver.rejects device) :
    NamesBesides (gather ((before ++ device :: after).map resolver.judge))
      (gather ((before ++ after).map resolver.judge)) device where
  targets_eq := targets_gather_congr fun target => by
    simp [or_and_right, exists_or, rejects_iff.mp h]
  unverified_eq := by
    rw [unverified_gather, unverified_gather, List.flatMap_append, List.flatMap_append,
      List.flatMap_cons, trusted_of_rejects h, List.nil_append]
  rejected_eq := by
    refine ⟨(before.filter resolver.rejects).map Text.lower,
      (after.filter resolver.rejects).map Text.lower, ?_, ?_⟩
    · rw [rejected_gather, List.filter_append, List.filter_cons_of_pos h, List.map_append,
        List.map_cons]
    · rw [rejected_gather, List.filter_append, List.map_append]

/-- **A request is resolved device by device.**  It fails exactly if every device is rejected, and
otherwise adds up what the devices are resolved to on their own.  Requests for the same devices have
the same targets; and a rejected device, beside one that is not, adds nothing but its name. -/
theorem resolve_each (resolver : Resolver) (hne : devices ≠ []) :
    (∀ device, resolver.resolve [device] = (resolver.judge device).alone) ∧
    (resolver.resolve devices = .error .noTargets ↔ ∀ device ∈ devices, resolver.rejects device) ∧
    ((∃ device ∈ devices, ¬ resolver.rejects device) →
      ∃ resolution, resolver.resolve devices = .ok resolution ∧
        AddsUp resolver devices resolution) ∧
    (∀ devices', (∀ device, device ∈ devices' ↔ device ∈ devices) →
      (resolver.resolve devices').map Resolution.targets
        = (resolver.resolve devices).map Resolution.targets) ∧
    ∀ before device after, devices = before ++ device :: after → resolver.rejects device →
      (∃ other ∈ before ++ after, ¬ resolver.rejects other) →
      ∃ all others, resolver.resolve devices = .ok all ∧
        resolver.resolve (before ++ after) = .ok others ∧ NamesBesides all others device := by
  refine ⟨resolve_singleton resolver, resolve_eq_error_iff hne, ?_,
    fun devices' hmem => map_targets_resolve_congr hne hmem, ?_⟩
  · rintro ⟨device, hdevice, hresolves⟩
    exact ⟨_, resolve_of_not_rejects hdevice hresolves, addsUp_gather resolver devices⟩
  · rintro before device after rfl hrejects ⟨other, hother, hresolves⟩
    have hother' : other ∈ before ++ device :: after :=
      (List.Sublist.append_left (List.sublist_cons_self _ _) _).subset hother
    exact ⟨_, _, resolve_of_not_rejects hother' hresolves, resolve_of_not_rejects hother hresolves,
      namesBesides_gather before after hrejects⟩

/-- A processor and its public name, a listed device twice, and no device at all. -/
def repeatedRequest : List Text :=
  ["GFX803 ".toList, "gfx9999".toList, "Nonsense".toList, "fiji".toList, "gfx9999".toList]

/-- The devices of the sample, one by one. -/
theorem resolve_each_repeatedRequest : repeatedRequest ≠ [] ∧
    ∃ all others, (builtin ⟨["gfx9999".toList]⟩).resolve repeatedRequest = .ok all ∧
      AddsUp (builtin ⟨["gfx9999".toList]⟩) repeatedRequest all ∧
      all.unverified = ["gfx9999".toList, "gfx9999".toList] ∧
      (builtin ⟨["gfx9999".toList]⟩).resolve
        ["GFX803 ".toList, "gfx9999".toList, "fiji".toList, "gfx9999".toList] = .ok others ∧
      NamesBesides all others "Nonsense".toList := by
  have hne : repeatedRequest ≠ [] := by decide
  obtain ⟨-, -, hadds, -, hwithout⟩ := resolve_each (builtin ⟨["gfx9999".toList]⟩) hne
  obtain ⟨all, hall, haddsUp⟩ :=
    hadds ⟨"fiji".toList, by decide +kernel, by decide +kernel⟩
  obtain ⟨all', others, hall', hothers, hnames⟩ :=
    hwithout ["GFX803 ".toList, "gfx9999".toList] "Nonsense".toList
      ["fiji".toList, "gfx9999".toList] rfl (by decide +kernel)
      ⟨"fiji".toList, by decide +kernel, by decide +kernel⟩
  obtain rfl : all = all' := Except.ok.inj (hall.symm.trans hall')
  refine ⟨hne, all, others, hall, haddsUp, ?_, hothers, hnames⟩
  rw [haddsUp.unverified_eq]
  decide +kernel

end Resolver

end KernelIsa
