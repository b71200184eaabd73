import KernelIsa.Proofs.Build.History
import KernelIsa.Proofs.Device.KnownTargets
import KernelIsa.Proofs.Device.SingleDevices

/-!
# Proofs/Build/Respelling — requests spelled in different ways

A device is looked up by its plain name, trimmed and in small letters, so that devices of one plain
name are judged alike (`judge_congr`), and respelled requests have the same targets and the same
unverified names.  A rejected device, though, is named as it was typed, in small letters but with
its blanks, and its record is kept under that name.  So two respelled requests have the same
resolution exactly if no rejected device differs in blanks (`resolve_respelled_iff`).
-/

namespace KernelIsa

/-- The verdict for a device that is spelled in another way: a rejection names the device. -/
def Verdict.respelled (device : Text) : Verdict → Verdict
  | .rejected _ => .rejected (Text.lower device)
  | verdict => verdict

attribute [ext] Resolution

namespace Resolver

variable {resolver : Resolver} {xs ys : List Text} {x y : Text} {α : Type}

/-! ## Devices of one plain name -/

/-- **Devices of one plain name are judged alike**, except that a rejection names the device. -/
theorem judge_congr (resolver : Resolver) (h : plainName x = plainName y) :
    resolver.judge y = (resolver.judge x).respelled y := by
  have hlookup : resolver.lookupName y = resolver.lookupName x :=
    congrArg (fun name => (resolver.table.publicName? name).getD name) h.symm
  rw [judge, judge, hlookup]
  cases resolver.match? (resolver.lookupName x) with
  | some target => rfl
  | none => cases resolver.supplement.contains (resolver.lookupName x) <;> rfl

theorem target?_judge_congr (resolver : Resolver) (h : plainName x = plainName y) :
    (resolver.judge y).target? = (resolver.judge x).target? := by
  rw [judge_congr resolver h]
  cases resolver.judge x <;> rfl

theorem unverified?_judge_congr (resolver : Resolver) (h : plainName x = plainName y) :
    (resolver.judge y).unverified? = (resolver.judge x).unverified? := by
  rw [judge_congr resolver h]
  cases resolver.judge x <;> rfl

theorem rejects_congr (resolver : Resolver) (h : plainName x = plainName y) :
    resolver.rejects x = resolver.rejects y := by
  rw [Bool.eq_iff_iff, rejects_iff, rejects_iff, target?_judge_congr resolver h]

/-! ## Respelled requests -/

/-- The requests name the same devices, place by place. -/
def Respelled (xs ys : List Text) : Prop :=
  List.Forall₂ (fun x y => plainName x = plainName y) xs ys

theorem Respelled.filterMap_eq (h : Respelled xs ys) {f : Text → Option α}
    (hf : ∀ x y, plainName x = plainName y → f y = f x) : xs.filterMap f = ys.filterMap f := by
  induction h with
  | nil => rfl
  | cons hxy _ ih => rw [List.filterMap_cons, List.filterMap_cons, hf _ _ hxy, ih]

/-- The rejected devices of respelled requests stand at the same places. -/
theorem Respelled.map_filter_eq_iff (h : Respelled xs ys) (f : Text → α) :
    (xs.filter resolver.rejects).map f = (ys.filter resolver.rejects).map f ↔
      ∀ p ∈ xs.zip ys, resolver.rejects p.1 → f p.1 = f p.2 := by
  induction h with
  | nil => simp
  | @cons x y xs ys hxy _ ih =>
    rw [List.zip_cons_cons, List.forall_mem_cons, ← ih]
    cases hx : resolver.rejects x with
    | true =>
      have hy := (rejects_congr resolver hxy).symm.trans hx
      rw [List.filter_cons_of_pos hx, List.filter_cons_of_pos hy]
      simp
    | false =>
      have hy := (rejects_congr resolver hxy).symm.trans hx
      rw [List.filter_cons_of_neg (by simp [hx]), List.filter_cons_of_neg (by simp [hy])]
      simp

theorem Respelled.targets_eq (h : Respelled xs ys) :
    (gather (xs.map resolver.judge)).targets = (gather (ys.map resolver.judge)).targets := by
  have htargets : xs.filterMap (Verdict.target? ∘ resolver.judge)
      = ys.filterMap (Verdict.target? ∘ resolver.judge) :=
    h.filterMap_eq fun x y hxy => target?_judge_congr resolver hxy
  simp only [gather, List.filterMap_map, htargets]

theorem Respelled.unverified_eq (h : Respelled xs ys) :
    (gather (xs.map resolver.judge)).unverified = (gather (ys.map resolver.judge)).unverified := by
  have hunverified : xs.filterMap (Verdict.unverified? ∘ resolver.judge)
      = ys.filterMap (Verdict.unverified? ∘ resolver.judge) :=
    h.filterMap_eq fun x y hxy => unverified?_judge_congr resolver hxy
  simp only [gather, List.filterMap_map, hunverified]

/-- **The verdicts on respelled requests gather alike** exactly if the rejected devices are the same
in small letters. -/
theorem Respelled.gather_eq_iff (h : Respelled xs ys) :
    gather (xs.map resolver.judge) = gather (ys.map resolver.judge) ↔
      ∀ p ∈ xs.zip ys, resolver.rejects p.1 → Text.lower p.1 = Text.lower p.2 := by
  rw [← h.map_filter_eq_iff, ← rejected_gather, ← rejected_gather]
  exact ⟨congrArg Resolution.rejected,
    fun hrejected => Resolution.ext h.targets_eq hrejected h.unverified_eq⟩

/-! ## Records -/

/-- A rejected device is recorded under the device in small letters. -/
theorem get?_reject_gather (hx : x ∈ xs) (h : resolver.rejects x) :
    ((gather (xs.map resolver.judge)).rejected.foldl Run.reject {}).records.get?
      ⟨Text.lower x, none⟩ = some Record.failed := by
  rw [Run.get?_foldl_reject, rejected_gather, if_pos]
  exact ⟨rfl, List.mem_map_of_mem (List.mem_filter.mpr ⟨hx, h⟩)⟩

/-- **Respelled requests are resolved to the same targets.**  Either both fail, or their resolutions
differ in nothing but the names of rejected devices, under which these are recorded; they are the
same exactly if every rejected device is typed with the same blanks. -/
theorem resolve_respelled_iff (resolver : Resolver) (h : Respelled xs ys) :
    (∃ fault, resolver.resolve xs = .error fault ∧ resolver.resolve ys = .error fault) ∨
    ∃ first second, resolver.resolve xs = .ok first ∧ resolver.resolve ys = .ok second ∧
      first.targets = second.targets ∧ first.unverified = second.unverified ∧
      (first = second ↔
        ∀ p ∈ xs.zip ys, resolver.rejects p.1 → Text.lower p.1 = Text.lower p.2) ∧
      ∀ p ∈ xs.zip ys, resolver.rejects p.1 →
        (first.rejected.foldl Run.reject {}).records.get? ⟨Text.lower p.1, none⟩
            = some Record.failed ∧
        (second.rejected.foldl Run.reject {}).records.get? ⟨Text.lower p.2, none⟩
            = some Record.failed := by
  have hzip : ∀ p ∈ xs.zip ys, p.1 ∈ xs ∧ p.2 ∈ ys ∧ resolver.rejects p.1 = resolver.rejects p.2 :=
    fun p hp => ⟨(List.of_mem_zip hp).1, (List.of_mem_zip hp).2,
      rejects_congr resolver (List.forall₂_zip h hp)⟩
  by_cases hxs : xs = []
  · obtain rfl := hxs
    obtain rfl := List.forall₂_nil_left_iff.mp h
    cases hresolve : resolver.resolve [] with
    | error fault => exact .inl ⟨fault, rfl, rfl⟩
    | ok resolution => exact .inr ⟨_, _, rfl, rfl, rfl, rfl, by simp, by simp⟩
  have hys : ys ≠ [] := fun hys => hxs (List.forall₂_nil_right_iff.mp (hys ▸ h))
  rw [resolve_eq hxs, resolve_eq hys, h.targets_eq]
  split
  · exact .inl ⟨_, rfl, rfl⟩
  · refine .inr ⟨_, _, rfl, rfl, h.targets_eq, h.unverified_eq, h.gather_eq_iff,
      fun p hp hrejects => ?_⟩
    obtain ⟨hx, hy, hsame⟩ := hzip p hp
    exact ⟨get?_reject_gather hx hrejects, get?_reject_gather hy (hsame ▸ hrejects)⟩

/-- A processor, a listed device and no device at all. -/
def sampleSpelling : List Text := ["GFX803 ".toList, "gfx9999".toList, "Nonsense".toList]

/-- The same devices, spelled in another way. -/
def sampleRespelling : List Text := ["gfx803".toList, "\tGfx9999".toList, "nonsensE".toList]

/-- The samples are resolved alike. -/
theorem resolve_respelled_iff_sampleSpelling : Respelled sampleSpelling sampleRespelling ∧
    ∃ first second, (builtin ⟨["gfx9999".toList]⟩).resolve sampleSpelling = .ok first ∧
      (builtin ⟨["gfx9999".toList]⟩).resolve sampleRespelling = .ok second ∧ first = second ∧
      (first.rejected.foldl Run.reject {}).records.get? ⟨"nonsense".toList, none⟩
        = some Record.failed := by
  have hrespelled : Respelled sampleSpelling sampleRespelling :=
    .cons (by decide) (.cons (by decide) (.cons (by decide) .nil))
  refine ⟨hrespelled, ?_⟩
  rcases resolve_respelled_iff (builtin ⟨["gfx9999".toList]⟩) hrespelled with
    ⟨fault, hfault, -⟩ | ⟨first, second, hfirst, hsecond, -, -, hiff, hrecords⟩
  · have hok : ((builtin ⟨["gfx9999".toList]⟩).resolve sampleSpelling).isOk := by decide +kernel
    rw [hfault] at hok
    cases hok
  · have hrejects : (builtin ⟨["gfx9999".toList]⟩).rejects "Nonsense".toList := by decide +kernel
    exact ⟨first, second, hfirst, hsecond, hiff.mpr (by decide +kernel),
      (hrecords ("Nonsense".toList, "nonsensE".toList) (by decide) hrejects).1⟩

/-- A rejected device that is typed with a space in front is recorded under another name. -/
theorem not_resolved_alike_paddedDevice :
    Respelled [" nonsense".toList, "gfx906".toList] ["nonsense".toList, "gfx906".toList] ∧
    ∃ first second,
      (builtin .empty).resolve [" nonsense".toList, "gfx906".toList] = .ok first ∧
      (builtin .empty).resolve ["nonsense".toList, "gfx906".toList] = .ok second ∧
      first.rejected ≠ second.rejected ∧
      (first.rejected.foldl Run.reject {}).records.keys
        ≠ (second.rejected.foldl Run.reject {}).records.keys := by
  refine ⟨.cons (by decide) (.cons (by decide) .nil),
    ⟨["gfx906".toList], [" nonsense".toList], []⟩, ⟨["gfx906".toList], ["nonsense".toList], []⟩, ?_⟩
  decide +kernel

end Resolver

end KernelIsa
