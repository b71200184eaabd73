import KernelIsa.Device.Resolution
import KernelIsa.Proofs.Collection.LookUp

/-!
# Proofs/Device/Requests — the targets of a request

The targets of a request are those of its verdicts, strictly sorted (`mem_targets_gather_iff`,
`Resolver.pairwise_targets`).  Sorted names are in the table made of them already
(`Keyed.ofList_entries`), so that a request for targets that are judged to be themselves is resolved
to just these (`Resolver.exists_resolve_again`).
-/

namespace KernelIsa

/-! ## Sorted names -/

namespace Keyed

variable {κ α : Type} [Ord κ]

theorem pairwise_keys (t : Keyed κ α) : t.keys.Pairwise fun a b => compare a b = .lt :=
  List.pairwise_map.mpr t.ordered

variable [Std.TransOrd κ] [Std.LawfulEqOrd κ] [DecidableEq κ]

/-- A table is made of its entries. -/
theorem ofList_entries (t : Keyed κ α) : ofList t.entries = t :=
  ext fun k => by rw [get?_ofList, last?_entries]

theorem mem_keys_ofList {es : List (κ × α)} {k : κ} :
    k ∈ (ofList es).keys ↔ k ∈ es.map Prod.fst := by
  rw [keys, ← last?_isSome_iff, last?_entries, get?_ofList, last?_isSome_iff]

/-- Sorted names are the keys of the table made of them. -/
theorem keys_ofList_map {ks : List κ} (h : ks.Pairwise fun a b => compare a b = .lt) :
    (ofList (ks.map fun k => (k, ()))).keys = ks := by
  have hkeys : (ks.map fun k => (k, ())).map Prod.fst = ks := by
    rw [List.map_map]
    exact List.map_id ks
  have htable := ofList_entries (⟨ks.map fun k => (k, ()), List.pairwise_map.mpr h⟩ : Keyed κ Unit)
  rw [htable, keys, hkeys]

end Keyed

/-! ## Resolutions -/

theorem Verdict.target?_eq_some_iff {verdict : Verdict} {target : Text} :
    verdict.target? = some target ↔ verdict = .verified target ∨ verdict = .unverified target := by
  cases verdict <;> simp [Verdict.target?]

namespace Resolver

variable {resolver : Resolver} {devices : List Text} {verdicts : List Verdict}
  {resolution : Resolution} {target : Text}

theorem mem_targets_gather_iff :
    target ∈ (gather verdicts).targets ↔ ∃ verdict ∈ verdicts, verdict.target? = some target := by
  rw [gather, Keyed.mem_keys_ofList, List.map_map, ← List.mem_filterMap]
  exact iff_of_eq (congrArg (target ∈ ·) (List.map_id _))

theorem mem_rejected_gather_iff {device : Text} :
    device ∈ (gather verdicts).rejected ↔ .rejected device ∈ verdicts := by
  rw [gather, List.mem_filterMap]
  constructor
  · rintro ⟨verdict, hverdict, hrejected⟩
    cases verdict with
    | rejected => exact Option.some.inj hrejected ▸ hverdict
    | _ => cases hrejected
  · exact fun h => ⟨_, h, rfl⟩

theorem mem_unverified_gather_iff :
    target ∈ (gather verdicts).unverified ↔ .unverified target ∈ verdicts := by
  rw [gather, List.mem_filterMap]
  constructor
  · rintro ⟨verdict, hverdict, hunverified⟩
    cases verdict with
    | unverified => exact Option.some.inj hunverified ▸ hverdict
    | _ => cases hunverified
  · exact fun h => ⟨_, h, rfl⟩

/-- **A request that names devices is resolved to what its verdicts gather**, unless that holds no
target. -/
theorem resolve_eq_ok_iff (h : devices ≠ []) : resolver.resolve devices = .ok resolution ↔
    gather (devices.map resolver.judge) = resolution ∧ resolution.targets ≠ [] := by
  rw [resolve, List.isEmpty_eq_false_iff.mpr h, if_neg Bool.false_ne_true]
  dsimp only
  split
  · next hempty =>
    refine iff_of_false nofun ?_
    rintro ⟨rfl, hne⟩
    exact hne (List.isEmpty_iff.mp hempty)
  · next hne =>
    rw [Except.ok.injEq]
    refine (and_iff_left_of_imp ?_).symm
    rintro rfl hnil
    exact hne (List.isEmpty_iff.mpr hnil)

/-- **A request without names is resolved to the newest device.** -/
theorem resolve_nil_eq_ok_iff : resolver.resolve [] = .ok resolution ↔
    ∃ target, resolver.table.latest? = some target ∧ ⟨[target], [], []⟩ = resolution := by
  rw [resolve, List.isEmpty_nil, if_pos rfl]
  cases resolver.table.latest? <;> simp

theorem targets_ne_nil (h : resolver.resolve devices = .ok resolution) :
    resolution.targets ≠ [] := by
  by_cases hdevices : devices = []
  · obtain ⟨target, -, rfl⟩ := resolve_nil_eq_ok_iff.mp (hdevices ▸ h)
    exact List.cons_ne_nil _ _
  · exact ((resolve_eq_ok_iff hdevices).mp h).2

/-- **A request that names devices is resolved once one of them has a target.** -/
theorem exists_resolve_iff (h : devices ≠ []) :
    (∃ resolution, resolver.resolve devices = .ok resolution) ↔
      ∃ device ∈ devices, ∃ target, (resolver.judge device).target? = some target := by
  constructor
  · rintro ⟨resolution, hresolved⟩
    obtain ⟨rfl, hne⟩ := (resolve_eq_ok_iff h).mp hresolved
    obtain ⟨target, htarget⟩ := List.exists_mem_of_ne_nil _ hne
    obtain ⟨verdict, hverdict, hself⟩ := mem_targets_gather_iff.mp htarget
    obtain ⟨device, hdevice, rfl⟩ := List.mem_map.mp hverdict
    exact ⟨device, hdevice, target, hself⟩
  · rintro ⟨device, hdevice, target, hself⟩
    exact ⟨_, (resolve_eq_ok_iff h).mpr ⟨rfl, List.ne_nil_of_mem
      (mem_targets_gather_iff.mpr ⟨_, List.mem_map_of_mem hdevice, hself⟩)⟩⟩

/-- The targets of a request are strictly sorted. -/
theorem pairwise_targets (h : resolver.resolve devices = .ok resolution) :
    resolution.targets.Pairwise fun a b => compare a b = .lt := by
  by_cases hdevices : devices = []
  · obtain ⟨target, -, rfl⟩ := resolve_nil_eq_ok_iff.mp (hdevices ▸ h)
    exact List.pairwise_singleton _ _
  · obtain ⟨rfl, -⟩ := (resolve_eq_ok_iff hdevices).mp h
    exact Keyed.pairwise_keys _

/-- **Sorted targets that are judged to be themselves are resolved to themselves**, and nothing is
rejected. -/
theorem exists_resolve_again {targets : List Text} (hne : targets ≠ [])
    (hsorted : targets.Pairwise fun a b => compare a b = .lt)
    (hself : ∀ target ∈ targets, (resolver.judge target).target? = some target) :
    ∃ again, resolver.resolve targets = .ok again ∧ again.targets = targets ∧
      again.rejected = [] := by
  have htargets : (targets.map resolver.judge).filterMap Verdict.target? = targets := by
    rw [List.filterMap_map]
    exact (List.filterMap_congr hself).trans List.filterMap_some
  have hrejected : (targets.map resolver.judge).filterMap Verdict.rejected? = [] := by
    rw [List.filterMap_map, List.filterMap_eq_nil_iff]
    intro target htarget
    have hverdict := hself target htarget
    rw [Function.comp_apply]
    cases hjudge : resolver.judge target with
    | verified => rfl
    | unverified => rfl
    | rejected device =>
      rw [hjudge] at hverdict
      cases hverdict
  have hgathered : (gather (targets.map resolver.judge)).targets = targets := by
    rw [gather, htargets]
    exact Keyed.keys_ofList_map hsorted
  refine ⟨_, (resolve_eq_ok_iff hne).mpr ⟨rfl, ?_⟩, hgathered, hrejected⟩
  rwa [hgathered]

end Resolver

end KernelIsa
