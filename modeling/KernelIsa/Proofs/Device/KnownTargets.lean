import KernelIsa.Proofs.Device.Requests
import KernelIsa.Proofs.Text.Marks
import KernelIsa.Proofs.Text.Spelling

/-!
# Proofs/Device/KnownTargets — what the built-in devices and a supplement make of a name

The architecture string of a public name holds this name and no other public one
(`match?_offered`), and other names have no such string (`match?_eq_none`).  So a name is judged by
the first of these that it is: a processor, a public name, a line of the supplement (`Means`,
`judge_eq_iff`).  A target that was resolved is judged to be itself
(`target?_judge_of_mem_targets`), hence resolving again changes nothing (`resolve_builtin`).
-/

namespace KernelIsa

namespace Resolver

variable {text device name target : Text} {supplement : Supplement} {verdict : Verdict}
  {e : Text × Text}

/-! ## The built-in tables -/

/-- The name under which a typed device is looked for. -/
def plainName (device : Text) : Text := Text.lower (Text.trim device)

theorem lower_plainName (device : Text) : Text.lower (plainName device) = plainName device :=
  Text.lower_lower _

theorem plainName_plainName (device : Text) : plainName (plainName device) = plainName device :=
  Text.lower_trim_lower_trim device

/-- **The architecture string of a public name holds this name and no other public one.** -/
theorem match?_offered (supplement : Supplement) (he : e ∈ TargetTable.builtin.entries) :
    (builtin supplement).match? e.2 = some e.2 := by
  have hall : ∀ e ∈ TargetTable.builtin.entries, (builtin .empty).match? e.2 = some e.2 := by
    decide +kernel
  exact hall e he

/-- A public name is looked up as it stands. -/
theorem lookupName_offered (supplement : Supplement) (he : e ∈ TargetTable.builtin.entries) :
    (builtin supplement).lookupName e.2 = e.2 := by
  have hall : ∀ e ∈ TargetTable.builtin.entries, (builtin .empty).lookupName e.2 = e.2 := by
    decide +kernel
  exact hall e he

/-- A name that is not public has no architecture string. -/
theorem match?_eq_none (supplement : Supplement) (hname : Text.lower name = name)
    (h : ∀ e ∈ TargetTable.builtin.entries, e.2 ≠ name) :
    (builtin supplement).match? name = none := by
  have hpublic : ∀ d ∈ Family.table, ∃ e ∈ TargetTable.builtin.entries, e.2 = d.1.toList := by
    decide +kernel
  have hnone : Family.builtin? name = none := by
    rw [Family.builtin?, hname, Option.map_eq_none_iff, List.find?_eq_none]
    intro d hd heq
    obtain ⟨e, he, hpublic⟩ := hpublic d hd
    exact h e he (hpublic.trans (by simpa using heq))
  change (Family.builtin? name).bind _ = none
  rw [hnone, Option.bind_none]

/-- **A supplement holds the names of its lines without a comment mark**, in small letters. -/
theorem contains_ofText_iff (hname : Text.lower name = name) :
    (Supplement.ofText text).contains name ↔ name ≠ [] ∧
      ∃ line ∈ Text.lines text, ¬ ['/', '/'] <:+: line ∧ plainName line = name := by
  rw [Supplement.contains, Supplement.ofText, hname, List.contains_iff_mem, List.mem_filter,
    List.mem_map]
  constructor
  · rintro ⟨⟨line, hline, rfl⟩, hne⟩
    obtain ⟨hline, hmark⟩ := List.mem_filter.mp hline
    refine ⟨by simpa using hne, line, hline, fun h => ?_, rfl⟩
    rw [Text.hasMark_iff.mpr h] at hmark
    cases hmark
  · rintro ⟨hne, line, hline, hmark, rfl⟩
    refine ⟨⟨line, List.mem_filter.mpr ⟨hline, ?_⟩, rfl⟩, by simpa using hne⟩
    rw [← Text.hasMark_iff, Bool.not_eq_true] at hmark
    rw [hmark]
    rfl

/-! ## The meaning of a name -/

/-- What a typed device means beside the supplement of a text. -/
inductive Means (text device : Text) : Verdict → Prop
  /-- The name of a processor stands for its first public name. -/
  | processor {before after : List (Text × Text)} {target : Text}
      (htable : TargetTable.builtin.entries = before ++ (plainName device, target) :: after)
      (hfirst : ∀ e ∈ before, e.1 ≠ plainName device) : Means text device (.verified target)
  /-- A public name stands for itself. -/
  | offered (hprocessor : ∀ e ∈ TargetTable.builtin.entries, e.1 ≠ plainName device)
      {e : Text × Text} (he : e ∈ TargetTable.builtin.entries) (hname : e.2 = plainName device) :
      Means text device (.verified (plainName device))
  /-- A name that only the supplement lists is taken on trust. -/
  | listed (hprocessor : ∀ e ∈ TargetTable.builtin.entries, e.1 ≠ plainName device)
      (hoffered : ∀ e ∈ TargetTable.builtin.entries, e.2 ≠ plainName device)
      (hne : plainName device ≠ []) {line : Text} (hline : line ∈ Text.lines text)
      (hmark : ¬ ['/', '/'] <:+: line) (hname : plainName line = plainName device) :
      Means text device (.unverified (plainName device))
  /-- Any other name is rejected as it was typed, in small letters. -/
  | unknown (hprocessor : ∀ e ∈ TargetTable.builtin.entries, e.1 ≠ plainName device)
      (hoffered : ∀ e ∈ TargetTable.builtin.entries, e.2 ≠ plainName device)
      (hunlisted : plainName device = [] ∨ ∀ line ∈ Text.lines text,
        ['/', '/'] <:+: line ∨ plainName line ≠ plainName device) :
      Means text device (.rejected (Text.lower device))

theorem lookupName_of_no_processor
    (hprocessor : ∀ e ∈ TargetTable.builtin.entries, e.1 ≠ plainName device) :
    (builtin supplement).lookupName device = plainName device := by
  have hnone : TargetTable.builtin.publicName? (plainName device) = none := by
    rw [TargetTable.publicName?, Option.map_eq_none_iff, List.find?_eq_none]
    exact fun e he => by simpa using hprocessor e he
  change (TargetTable.builtin.publicName? (plainName device)).getD _ = _
  rw [hnone]
  rfl

theorem judge_of_match (h : (builtin supplement).match? ((builtin supplement).lookupName device)
    = some target) : (builtin supplement).judge device = .verified target := by
  rw [judge, h]

/-- A device is judged by its meaning. -/
theorem judge_of_means (h : Means text device verdict) :
    (builtin (.ofText text)).judge device = verdict := by
  cases h with
  | @processor before after target htable hfirst =>
    have hpublic : TargetTable.builtin.publicName? (plainName device) = some target := by
      have hfound : TargetTable.builtin.entries.find? (fun e => e.1 = plainName device)
          = some (plainName device, target) :=
        List.find?_eq_some_iff_append.mpr
          ⟨by simp, before, after, htable, fun e he => by simpa using hfirst e he⟩
      rw [TargetTable.publicName?, hfound]
      rfl
    have hlookup : (builtin (.ofText text)).lookupName device = target := by
      change (TargetTable.builtin.publicName? (plainName device)).getD _ = _
      rw [hpublic]
      rfl
    have he : (plainName device, target) ∈ TargetTable.builtin.entries :=
      htable ▸ List.mem_append_cons_self
    refine judge_of_match ?_
    rw [hlookup]
    exact match?_offered _ he
  | offered hprocessor he hname =>
    refine judge_of_match ?_
    rw [lookupName_of_no_processor hprocessor, ← hname]
    exact match?_offered _ he
  | @listed hprocessor hoffered hne line hline hmark hname =>
    have hcontains := (contains_ofText_iff (lower_plainName device)).mpr
      ⟨hne, line, hline, hmark, hname⟩
    rw [judge, lookupName_of_no_processor hprocessor,
      match?_eq_none _ (lower_plainName device) hoffered]
    exact if_pos hcontains
  | unknown hprocessor hoffered hunlisted =>
    rw [judge, lookupName_of_no_processor hprocessor,
      match?_eq_none _ (lower_plainName device) hoffered]
    refine if_neg fun hcontains => ?_
    obtain ⟨hne, line, hline, hmark, hname⟩ :=
      (contains_ofText_iff (lower_plainName device)).mp hcontains
    rcases hunlisted with hnil | hnone
    · exact hne hnil
    · rcases hnone line hline with hcomment | hother
      · exact hmark hcomment
      · exact hother hname

/-- Every device means something. -/
theorem exists_means (text device : Text) : ∃ verdict, Means text device verdict := by
  by_cases hprocessor : ∀ e ∈ TargetTable.builtin.entries, e.1 ≠ plainName device
  · by_cases hoffered : ∀ e ∈ TargetTable.builtin.entries, e.2 ≠ plainName device
    · by_cases hlisted : (Supplement.ofText text).contains (plainName device)
      · obtain ⟨hne, line, hline, hmark, hname⟩ :=
          (contains_ofText_iff (lower_plainName device)).mp hlisted
        exact ⟨_, .listed hprocessor hoffered hne hline hmark hname⟩
      · refine ⟨_, .unknown hprocessor hoffered ?_⟩
        rw [contains_ofText_iff (lower_plainName device)] at hlisted
        grind
    · push Not at hoffered
      obtain ⟨e, he, hname⟩ := hoffered
      exact ⟨_, .offered hprocessor he hname⟩
  · push Not at hprocessor
    obtain ⟨e, he, hname⟩ := hprocessor
    have hfound : (TargetTable.builtin.entries.find? fun e => e.1 = plainName device).isSome :=
      List.find?_isSome.mpr ⟨e, he, decide_eq_true hname⟩
    obtain ⟨first, hfirst⟩ := Option.isSome_iff_exists.mp hfound
    obtain ⟨hname, before, after, htable, hbefore⟩ := List.find?_eq_some_iff_append.mp hfirst
    obtain ⟨processor, target⟩ := first
    obtain rfl : processor = plainName device := by simpa using hname
    exact ⟨_, .processor htable (by simpa using hbefore)⟩

/-- **The verdict on a device is its meaning.** -/
theorem judge_eq_iff :
    (builtin (.ofText text)).judge device = verdict ↔ Means text device verdict := by
  refine ⟨?_, judge_of_means⟩
  rintro rfl
  obtain ⟨verdict, hmeans⟩ := exists_means text device
  rwa [judge_of_means hmeans]

/-! ## Resolving -/

theorem judge_offered (supplement : Supplement) (he : e ∈ TargetTable.builtin.entries) :
    (builtin supplement).judge e.2 = .verified e.2 := by
  refine judge_of_match ?_
  rw [lookupName_offered _ he]
  exact match?_offered _ he

/-- **A target that a device means is judged to be itself.** -/
theorem target?_judge_of_means (h : Means text device verdict)
    (htarget : verdict.target? = some target) :
    ((builtin (.ofText text)).judge target).target? = some target := by
  cases h with
  | @processor before after processor htable hfirst =>
    obtain rfl := Option.some.inj htarget
    have he : (plainName device, processor) ∈ TargetTable.builtin.entries := by
      rw [htable]
      exact List.mem_append_cons_self
    rw [judge_offered _ he, Verdict.target?]
  | offered hprocessor he hname =>
    obtain rfl := Option.some.inj htarget
    rw [← hname, judge_offered _ he, Verdict.target?]
  | listed hprocessor hoffered hne hline hmark hname =>
    obtain rfl := Option.some.inj htarget
    -- the name itself is typed again
    have hagain : Means text (plainName device) (.unverified (plainName (plainName device))) := by
      rw [← plainName_plainName device] at hprocessor hoffered hne hname
      exact .listed hprocessor hoffered hne hline hmark hname
    rw [judge_of_means hagain, plainName_plainName, Verdict.target?]
  | unknown => cases htarget

section Requests

variable {devices : List Text} {resolution : Resolution}

/-- **Every target of a request is judged to be itself.** -/
theorem target?_judge_of_mem_targets
    (h : (builtin (.ofText text)).resolve devices = .ok resolution)
    (htarget : target ∈ resolution.targets) :
    ((builtin (.ofText text)).judge target).target? = some target := by
  by_cases hdevices : devices = []
  · obtain ⟨newest, hnewest, rfl⟩ := resolve_nil_eq_ok_iff.mp (hdevices ▸ h)
    obtain rfl := List.mem_singleton.mp htarget
    obtain ⟨e, hlast, rfl⟩ := Option.map_eq_some_iff.mp hnewest
    rw [judge_offered _ (List.mem_of_getLast? hlast), Verdict.target?]
  · obtain ⟨rfl, -⟩ := (resolve_eq_ok_iff hdevices).mp h
    obtain ⟨verdict, hverdict, hself⟩ := mem_targets_gather_iff.mp htarget
    obtain ⟨device, -, rfl⟩ := List.mem_map.mp hverdict
    exact target?_judge_of_means (judge_eq_iff.mp rfl) hself

/-- The verdicts on a request are the meanings of its devices. -/
theorem mem_map_judge_iff :
    verdict ∈ devices.map (builtin (.ofText text)).judge ↔
      ∃ device ∈ devices, Means text device verdict := by
  simp only [List.mem_map, judge_eq_iff]

/-- **Devices are resolved by their meanings**, and resolving the targets again changes nothing. -/
theorem resolve_builtin (text : Text) :
    (∀ device verdict,
      (builtin (.ofText text)).judge device = verdict ↔ Means text device verdict) ∧
    (∀ devices, devices ≠ [] →
      ((∃ resolution, (builtin (.ofText text)).resolve devices = .ok resolution) ↔
        ∃ device ∈ devices, ∃ target,
          Means text device (.verified target) ∨ Means text device (.unverified target))) ∧
    ∀ devices resolution, (builtin (.ofText text)).resolve devices = .ok resolution →
      (devices ≠ [] → ∀ name,
        (name ∈ resolution.targets ↔ ∃ device ∈ devices,
          Means text device (.verified name) ∨ Means text device (.unverified name)) ∧
        (name ∈ resolution.unverified ↔ ∃ device ∈ devices, Means text device (.unverified name)) ∧
        (name ∈ resolution.rejected ↔ ∃ device ∈ devices, Means text device (.rejected name))) ∧
      ∃ again, (builtin (.ofText text)).resolve resolution.targets = .ok again ∧
        again.targets = resolution.targets ∧ again.rejected = [] := by
  refine ⟨fun device verdict => judge_eq_iff, fun devices hne => ?_,
    fun devices resolution h => ⟨fun hne name => ?_, ?_⟩⟩
  · rw [exists_resolve_iff hne]
    simp only [Verdict.target?_eq_some_iff, judge_eq_iff]
  · obtain ⟨rfl, -⟩ := (resolve_eq_ok_iff hne).mp h
    refine ⟨?_, mem_unverified_gather_iff.trans mem_map_judge_iff,
      mem_rejected_gather_iff.trans mem_map_judge_iff⟩
    rw [mem_targets_gather_iff]
    simp only [List.mem_map, exists_exists_and_eq_and]
    simp only [Verdict.target?_eq_some_iff, judge_eq_iff]
  · exact exists_resolve_again (targets_ne_nil h) (pairwise_targets h)
      fun target => target?_judge_of_mem_targets h

/-- A request for a processor, a listed device and no device at all. -/
def mixedRequest : List Text := ["GFX803 ".toList, "gfx9999".toList, "nonsense".toList]

theorem resolve_builtin_mixedRequest :
    mixedRequest ≠ [] ∧ ∃ resolution,
      (builtin (.ofText "// more\n GFX9999\nfiji\n".toList)).resolve mixedRequest
        = .ok resolution ∧
      resolution.targets = ["fiji".toList, "gfx9999".toList] ∧
      resolution.rejected = ["nonsense".toList] ∧
      ∃ again, (builtin (.ofText "// more\n GFX9999\nfiji\n".toList)).resolve resolution.targets
          = .ok again ∧ again.targets = resolution.targets ∧ again.rejected = [] := by
  have hresolved : (builtin (.ofText "// more\n GFX9999\nfiji\n".toList)).resolve mixedRequest
      = .ok ⟨["fiji".toList, "gfx9999".toList], ["nonsense".toList], ["gfx9999".toList]⟩ := by
    decide +kernel
  exact ⟨by decide, _, hresolved, rfl, rfl, ((resolve_builtin _).2.2 _ _ hresolved).2⟩

end Requests

end Resolver

end KernelIsa
