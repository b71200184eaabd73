import KernelIsa.Proofs.Build.Store
import KernelIsa.Proofs.Collection.LookUp

/-!
# Proofs/Build/KernelTrims — each kernel is trimmed on its own

What trimming makes of a kernel follows from its fragment and the code size that is given for it
(`trimmedTo`, `trim_ends_or_stops`).  So a pass over a table of kernels is a map over its entries
(`reduceAll_ends_or_stops`), from which the fragments, the kernels without size and the count are
read off (`Trims`).  Only an overflow gets in the way: it ends the pass, whatever kernels are behind
(`trims_or_stops`, `not_ends_distantAddresses`).
-/

namespace KernelIsa.Extraction

variable {σ : Type} {host : Host (StateM σ)} {services : Services (StateM σ)} {binary : Path}
  {kernel fragment : Text} {entries : List (Text × Text)} {size : Text → Option Nat} {n : Nat}
  {o : Reduction.Outcome} {kernels : Keyed Text Text} {trimmed : List TrimmedKernel} {s t u : σ}

/-! ## One kernel -/

/-- The code size that is given for a kernel in a state, if one is. -/
def sizeIn (services : Services (StateM σ)) (binary : Path) (kernel : Text) (s : σ) : Option Nat :=
  match ((services.codeSize binary kernel).run s : Except Fault (Option Nat) × σ).1 with
  | .ok given => given
  | .error _ => none

/-- The text that takes the place of a fragment: what its reduction to the given code size gives. -/
def replacement? (fragment : Text) (given : Option Nat) : Option Text :=
  given.bind fun n => (Reduction.reduce fragment n).toOption.bind Reduction.Outcome.reduced?

/-- The reduction of a fragment to the given code size leaves 64 bits. -/
def Overflows (fragment : Text) : Option Nat → Prop
  | none => False
  | some n => Reduction.reduce fragment n = .error .addition

instance : (given : Option Nat) → Decidable (Overflows fragment given)
  | none => inferInstanceAs (Decidable False)
  | some n => inferInstanceAs (Decidable (Reduction.reduce fragment n = .error .addition))

/-- What becomes of a fragment with the given code size. -/
def trimmedTo (fragment : Text) (given : Option Nat) : Trimmed :=
  if given.isNone then .unsized
  else match replacement? fragment given with
    | none => .kept
    | some result => .reduced result

theorem trimmedTo_of_reduce (h : Reduction.reduce fragment n = .ok o) :
    trimmedTo fragment (some n) = match o.reduced? with
      | none => .kept
      | some result => .reduced result := by
  have hreplacement : replacement? fragment (some n) = o.reduced? := by
    rw [replacement?, Option.bind_some, h]
    rfl
  rw [trimmedTo, hreplacement]
  rfl

theorem not_overflows_of_reduce (h : Reduction.reduce fragment n = .ok o) :
    ¬ Overflows fragment (some n) :=
  fun herror => nomatch h.symm.trans herror

/-- A kernel that is told about and left as it is. -/
theorem ends_tell (host : Host (StateM σ)) (notice : Notice) (trimmed : Trimmed) (s : σ) :
    Ends (do
      host.tell notice
      return trimmed : Checked (StateM σ) Trimmed) s trimmed
      ((host.tell notice).run s : Unit × σ).2 :=
  ends_bind_iff.mpr ⟨_, _, ends_lift_iff.mpr rfl, ends_pure_iff.mpr ⟨rfl, rfl⟩⟩

theorem run_reduction {result : Except Overflow Reduction.Outcome}
    (h : Reduction.reduce fragment n = result) (u : σ) :
    ((ExceptT.mk (pure (Reduction.reduce fragment n)) : Checked (StateM σ) _).run.run u :
      Except Overflow Reduction.Outcome × σ) = (result, u) := by
  rw [← h]
  rfl

theorem ends_trim_of_reduce
    (hasked : ((services.codeSize binary kernel).run s : _ × σ) = (.ok (some n), u))
    (h : Reduction.reduce fragment n = .ok o) :
    ∃ t, Ends (trim host services binary kernel fragment) s (trimmedTo fragment (some n)) t := by
  simp only [trim, ends_bind_iff, ends_lift_iff, hasked]
  rw [trimmedTo_of_reduce h]
  cases o with
  | unreadable line =>
    exact ⟨_, _, _, rfl, ends_bind_iff.mpr ⟨_, _, run_reduction h u, ends_tell host _ _ u⟩⟩
  | unchanged =>
    exact ⟨u, _, _, rfl, ends_bind_iff.mpr
      ⟨_, _, run_reduction h u, ends_pure_iff.mpr ⟨rfl, rfl⟩⟩⟩
  | reduced result =>
    exact ⟨u, _, _, rfl, ends_bind_iff.mpr
      ⟨_, _, run_reduction h u, ends_pure_iff.mpr ⟨rfl, rfl⟩⟩⟩

theorem stops_trim_of_reduce {overflow : Overflow}
    (hasked : ((services.codeSize binary kernel).run s : _ × σ) = (.ok (some n), u))
    (h : Reduction.reduce fragment n = .error overflow) :
    Stops (trim host services binary kernel fragment) s overflow u :=
  stops_bind_iff.mpr (.inr ⟨_, _, ends_lift_iff.mpr hasked,
    stops_bind_iff.mpr (.inl (run_reduction h u))⟩)

/-- **What becomes of a kernel follows from its fragment and its code size**, unless the reduction
overflows. -/
theorem trim_ends_or_stops (host : Host (StateM σ)) (services : Services (StateM σ))
    (binary : Path) (kernel fragment : Text) (s : σ) :
    (¬ Overflows fragment (sizeIn services binary kernel s) ∧
      ∃ t, Ends (trim host services binary kernel fragment) s
        (trimmedTo fragment (sizeIn services binary kernel s)) t) ∨
    (Overflows fragment (sizeIn services binary kernel s) ∧
      ∃ t, Stops (trim host services binary kernel fragment) s .addition t) := by
  obtain ⟨answer, u, hasked⟩ : ∃ answer u, ((services.codeSize binary kernel).run s : _ × σ)
      = (answer, u) := ⟨_, _, rfl⟩
  rw [sizeIn, hasked]
  rcases answer with fault | none | n
  · exact .inl ⟨id, _, ends_bind_iff.mpr ⟨_, _, ends_lift_iff.mpr hasked, ends_tell host _ _ u⟩⟩
  · exact .inl ⟨id, _, ends_bind_iff.mpr ⟨_, _, ends_lift_iff.mpr hasked, ends_tell host _ _ u⟩⟩
  · cases hreduce : Reduction.reduce fragment n with
    | ok o => exact .inl ⟨not_overflows_of_reduce hreduce, ends_trim_of_reduce hasked hreduce⟩
    | error overflow => exact .inr ⟨hreduce, u, stops_trim_of_reduce hasked hreduce⟩

/-! ## All kernels in order -/

section Pass

variable (host services binary size)

/-- The state in which trimming a kernel leaves the next one. -/
def stateAfter (e : Text × Text) (s : σ) : σ :=
  ((trim host services binary e.1 e.2).run.run s : Except Overflow Trimmed × σ).2

/-- The code sizes are those that the service gives for the kernels, each when its turn comes. -/
def Gives : List (Text × Text) → σ → Prop
  | [], _ => True
  | e :: rest, s => sizeIn services binary e.1 s = size e.1 ∧
      Gives rest (stateAfter host services binary e s)

/-- What becomes of an entry of a table. -/
def trimmedKernel (e : Text × Text) : TrimmedKernel := ⟨e.1, e.2, trimmedTo e.2 (size e.1)⟩

end Pass

theorem Gives.congr {size' : Text → Option Nat} (h : Gives host services binary size entries s)
    (heq : ∀ e ∈ entries, size' e.1 = size e.1) : Gives host services binary size' entries s := by
  induction entries generalizing s with
  | nil => trivial
  | cons e rest ih =>
    obtain ⟨hfirst, hrest⟩ := h
    exact ⟨hfirst.trans (heq e List.mem_cons_self).symm,
      ih hrest fun d hd => heq d (List.mem_cons_of_mem _ hd)⟩

/-- Any service gives some code sizes for different kernels. -/
theorem exists_gives (host : Host (StateM σ)) (services : Services (StateM σ)) (binary : Path)
    (hnodup : (entries.map Prod.fst).Nodup) (s : σ) :
    ∃ size, Gives host services binary size entries s := by
  induction entries generalizing s with
  | nil => exact ⟨fun _ => none, trivial⟩
  | cons e rest ih =>
    obtain ⟨hfirst, hnodup⟩ := List.nodup_cons.mp hnodup
    obtain ⟨size, hrest⟩ := ih hnodup (stateAfter host services binary e s)
    refine ⟨Function.update size e.1 (sizeIn services binary e.1 s), ?_, hrest.congr fun d hd => ?_⟩
    · rw [Function.update_self]
    · have hne : d.1 ≠ e.1 := fun heq => hfirst (heq ▸ List.mem_map_of_mem hd)
      exact Function.update_of_ne hne _ _

/-- A service that gives the same code size at any time gives it when the turn comes. -/
theorem gives_of_steady (h : ∀ kernel s, sizeIn services binary kernel s = size kernel)
    (entries : List (Text × Text)) (s : σ) : Gives host services binary size entries s := by
  induction entries generalizing s with
  | nil => trivial
  | cons e rest ih => exact ⟨h e.1 s, ih _⟩

/-- The code sizes that are given are determined. -/
theorem Gives.eq {size' : Text → Option Nat} (h : Gives host services binary size entries s)
    (h' : Gives host services binary size' entries s) {e : Text × Text} (he : e ∈ entries) :
    size e.1 = size' e.1 := by
  induction entries generalizing s with
  | nil => cases he
  | cons d rest ih =>
    rcases List.mem_cons.mp he with rfl | he
    · exact h.1.symm.trans h'.1
    · exact ih h.2 h'.2 he

theorem ends_after {a : Trimmed} {e : Text × Text}
    (h : Ends (trim host services binary e.1 e.2) s a t) :
    t = stateAfter host services binary e s := by
  rw [stateAfter, h]

/-- **A pass over kernels maps each entry on its own**, up to the first whose reduction overflows;
that one ends the pass. -/
theorem reduceAll_ends_or_stops (h : Gives host services binary size entries s) :
    ((∀ e ∈ entries, ¬ Overflows e.2 (size e.1)) ∧
      ∃ t, Ends (reduceAll host services binary entries) s (entries.map (trimmedKernel size)) t) ∨
    ∃ front e rest, entries = front ++ e :: rest ∧
      (∀ d ∈ front, ¬ Overflows d.2 (size d.1)) ∧ Overflows e.2 (size e.1) ∧
      ∃ t, Stops (reduceAll host services binary entries) s .addition t := by
  induction entries generalizing s with
  | nil => exact .inl ⟨nofun, s, ends_pure_iff.mpr ⟨rfl, rfl⟩⟩
  | cons e rest ih =>
    obtain ⟨hfirst, hrest⟩ := h
    have htrim := trim_ends_or_stops host services binary e.1 e.2 s
    rw [hfirst] at htrim
    rcases htrim with ⟨hfits, u, hends⟩ | ⟨hover, u, hstops⟩
    · obtain rfl := ends_after hends
      rcases ih hrest with ⟨hall, t, hpass⟩ | ⟨front, d, behind, hsplit, hfront, hover, t, hpass⟩
      · refine .inl ⟨List.forall_mem_cons.mpr ⟨hfits, hall⟩, t, ?_⟩
        exact ends_bind_iff.mpr ⟨_, _, hends, ends_bind_iff.mpr
          ⟨_, _, hpass, ends_pure_iff.mpr ⟨rfl, rfl⟩⟩⟩
      · refine .inr ⟨e :: front, d, behind, congrArg (e :: ·) hsplit,
          List.forall_mem_cons.mpr ⟨hfits, hfront⟩, hover, t, ?_⟩
        exact stops_bind_iff.mpr (.inr ⟨_, _, hends, stops_bind_iff.mpr (.inl hpass)⟩)
    · exact .inr ⟨[], e, rest, rfl, nofun, hover, u, stops_bind_iff.mpr (.inl hstops)⟩

/-! ## What is left, and what is counted -/

/-- A kernel after the pass: its text, whether it has no code size, and whether its text is new. -/
theorem trimmedKernel_reads (size : Text → Option Nat) (e : Text × Text) :
    (trimmedKernel size e).result = (replacement? e.2 (size e.1)).getD e.2 ∧
    (trimmedKernel size e).isUnsized = (size e.1).isNone ∧
    (trimmedKernel size e).isReduced = (replacement? e.2 (size e.1)).isSome := by
  rw [TrimmedKernel.result, TrimmedKernel.isUnsized, TrimmedKernel.isReduced, trimmedKernel,
    trimmedTo]
  cases size e.1 with
  | none => exact ⟨rfl, rfl, rfl⟩
  | some n => cases replacement? e.2 (some n) <;> exact ⟨rfl, rfl, rfl⟩

/-- The kernels of a table that get a new text. -/
def replaced (size : Text → Option Nat) (kernels : Keyed Text Text) : List Text :=
  (kernels.filter fun kernel fragment => (replacement? fragment (size kernel)).isSome).keys

/-- What a pass over the kernels of a table leaves when these code sizes are given. -/
structure Trims (size : Text → Option Nat) (kernels : Keyed Text Text)
    (trimmed : List TrimmedKernel) : Prop where
  /-- The reduction to each given code size has an outcome. -/
  reduces : ∀ kernel fragment n, kernels.get? kernel = some fragment → size kernel = some n →
    ∃ o, Reduction.reduce fragment n = .ok o
  /-- The kernels are the same in the same order, each with its new text if it gets one. -/
  fragments : trimmed.map (fun k => (k.kernel, k.result))
    = (kernels.mapValues fun kernel fragment =>
        (replacement? fragment (size kernel)).getD fragment).entries
  /-- Those that go without code size are those for which none is given. -/
  unsized : (trimmed.filter TrimmedKernel.isUnsized).map TrimmedKernel.kernel
    = kernels.keys.filter fun kernel => (size kernel).isNone
  /-- The count of reduced kernels goes up by those with a new text, and no other count changes. -/
  tally : ∀ tally : Tally, tally + { reduced := (trimmed.filter TrimmedKernel.isReduced).length }
    = { tally with reduced := tally.reduced + (replaced size kernels).length }
  isModified : trimmed.any TrimmedKernel.isReduced ↔ 0 < (replaced size kernels).length
  /-- No kernel without code size gets a new text. -/
  apart : ∀ kernel ∈ replaced size kernels, size kernel ≠ none

theorem length_filter_isReduced (size : Text → Option Nat) (kernels : Keyed Text Text) :
    ((kernels.entries.map (trimmedKernel size)).filter TrimmedKernel.isReduced).length
      = (replaced size kernels).length := by
  rw [List.filter_map, List.length_map, replaced, Keyed.keys, List.length_map, Keyed.filter]
  exact congrArg List.length (List.filter_congr fun e _ => (trimmedKernel_reads size e).2.2)

theorem ne_none_of_mem_replaced (h : kernel ∈ replaced size kernels) : size kernel ≠ none := by
  obtain ⟨e, he, rfl⟩ := List.mem_map.mp h
  have hsome : (replacement? e.2 (size e.1)).isSome = true := (List.mem_filter.mp he).2
  intro hnone
  rw [hnone] at hsome
  cases hsome

/-- **Where no reduction overflows, the mapped entries are what trimming is to leave.** -/
theorem trims_of_fits (h : ∀ e ∈ kernels.entries, ¬ Overflows e.2 (size e.1)) :
    Trims size kernels (kernels.entries.map (trimmedKernel size)) where
  reduces kernel fragment n hget hsize := by
    have hfits := h _ (Keyed.mem_of_get? hget)
    rw [hsize] at hfits
    cases hreduce : Reduction.reduce fragment n with
    | ok o => exact ⟨o, rfl⟩
    | error overflow => exact absurd hreduce hfits
  fragments := by
    rw [List.map_map]
    exact List.map_congr_left fun e _ => Prod.ext rfl (trimmedKernel_reads size e).1
  unsized := by
    rw [Keyed.keys, List.filter_map, List.filter_map, List.map_map]
    exact congrArg (List.map Prod.fst)
      (List.filter_congr fun e _ => (trimmedKernel_reads size e).2.1)
  tally tally := by
    rw [length_filter_isReduced]
    rfl
  isModified := by
    rw [← length_filter_isReduced, List.length_filter_pos_iff, List.any_eq_true]
  apart _ := ne_none_of_mem_replaced

theorem Trims.length_eq (h : Trims size kernels trimmed) : trimmed.length = kernels.size := by
  have hlength := congrArg List.length h.fragments
  rwa [List.length_map, Keyed.mapValues, List.length_map] at hlength

theorem Trims.length_reduced (h : Trims size kernels trimmed) :
    (trimmed.filter TrimmedKernel.isReduced).length = (replaced size kernels).length :=
  Nat.add_left_cancel (congrArg Tally.reduced (h.tally {}))

/-- A pass that ends was not stopped, so it leaves what the code sizes say. -/
theorem trims_of_ends (hgives : Gives host services binary size kernels.entries s)
    (h : Ends (reduceAll host services binary kernels.entries) s trimmed t) :
    Trims size kernels trimmed := by
  rcases reduceAll_ends_or_stops hgives with ⟨hfits, u, hends⟩ | ⟨_, _, _, -, -, -, u, hstops⟩
  · obtain ⟨rfl, -⟩ := h.unique hends
    exact trims_of_fits hfits
  · cases (Prod.mk.inj (h.symm.trans hstops)).1

/-- An extraction counts the kernels that were split off and those that got a new text. -/
theorem extract_counts {request : Request} {device compilerName : Text} {place : Text → Placement}
    {extraction : Extraction}
    (h : Ends (extract host services request device compilerName binary place) s extraction t) :
    (∃ fault, extraction = ⟨0, 0, [], some fault⟩) ∨
    ∃ u found v size,
      Ends (fragments host services request compilerName binary).run u (.ok found) v ∧
      Gives host services binary size found.byKernel.entries v ∧
      extraction.split = found.byKernel.size ∧
      extraction.reduced = (replaced size found.byKernel).length := by
  simp only [extract, ends_bind_iff] at h
  obtain ⟨_, u, -, result, v, hfragments, h⟩ := h
  cases result with
  | error fault => exact .inl ⟨fault, (ends_pure_iff.mp h).1.symm⟩
  | ok found =>
    simp only [ends_bind_iff] at h
    obtain ⟨trimmed, w, htrimmed, written, _, -, h⟩ := h
    obtain ⟨size, hgives⟩ := exists_gives host services binary found.byKernel.nodup_keys v
    have htrims := trims_of_ends hgives htrimmed
    have hextraction : extraction = ⟨trimmed.length,
        (trimmed.filter TrimmedKernel.isReduced).length, written.records, written.fault⟩ := by
      split at h
      · obtain ⟨_, _, -, h⟩ := ends_bind_iff.mp h
        exact (ends_pure_iff.mp h).1.symm
      · exact (ends_pure_iff.mp h).1.symm
    rw [hextraction]
    exact .inr ⟨u, found, v, size, hfragments, hgives, htrims.length_eq, htrims.length_reduced⟩

/-- **A pass over the kernels of a table trims each of them by its own fragment and code size**,
whatever the service answers; only an overflow in the reduction of a kernel gets in its way, and
that one ends the pass at the first such kernel. -/
theorem trims_or_stops (host : Host (StateM σ)) (services : Services (StateM σ)) (binary : Path)
    (kernels : Keyed Text Text) (s : σ) :
    ∃ size, Gives host services binary size kernels.entries s ∧
      ((∃ trimmed t, Ends (reduceAll host services binary kernels.entries) s trimmed t ∧
          Trims size kernels trimmed) ∨
        ∃ front kernel fragment rest t, kernels.entries = front ++ (kernel, fragment) :: rest ∧
          (∀ e ∈ front, ¬ Overflows e.2 (size e.1)) ∧ Overflows fragment (size kernel) ∧
          Stops (reduceAll host services binary kernels.entries) s .addition t) := by
  obtain ⟨size, hgives⟩ := exists_gives host services binary kernels.nodup_keys s
  refine ⟨size, hgives, ?_⟩
  rcases reduceAll_ends_or_stops hgives with ⟨hfits, t, hends⟩
    | ⟨front, e, rest, hsplit, hfront, hover, t, hstops⟩
  · exact .inl ⟨_, t, hends, trims_of_fits hfits⟩
  · exact .inr ⟨front, e.1, e.2, rest, t, hsplit, hfront, hover, hstops⟩

/-- Tools that know nothing but code sizes. -/
def sizing (size : Text → Option Nat) : PureTools where
  compile _ _ _ := ⟨.error .noSources, none⟩
  compileIntermediate _ _ _ := ⟨.error .noSources, none⟩
  disassemble _ _ _ := .error .noSources
  kernelNames _ := .error .noSources
  codeSize _ kernel := .ok (size kernel)

/-- A pass over kernels of which only the code sizes are known. -/
def sizingPass (size : Text → Option Nat) (kernels : Keyed Text Text) :
    Checked (StateM Store) (List TrimmedKernel) :=
  reduceAll Store.host (Store.services (sizing size)) (Path.ofText "out.bin".toList) kernels.entries

/-- A kernel with a label that nothing names, one without code size and one that ends in time. -/
def sampleKernels : Keyed Text Text := Keyed.ofList [
  ("a".toList, Fragment.withHeader "a".toList "a:\n\ts_nop // 0: BF\n".toList),
  ("b".toList, Fragment.withHeader "b".toList "b:\n\ts_nop // 0: BF\n".toList),
  ("c".toList, Fragment.withHeader "c".toList "\ts_nop // 0: BF\n".toList)]

def sampleSizes (kernel : Text) : Option Nat := if kernel = "b".toList then none else some 4

/-- Of the sample kernels one gets a new text and one goes without code size. -/
theorem trims_or_stops_sampleKernels : replaced sampleSizes sampleKernels = ["a".toList] ∧
    ∃ trimmed t, Ends (sizingPass sampleSizes sampleKernels) (fun _ => none) trimmed t ∧
      (trimmed.filter TrimmedKernel.isUnsized).map TrimmedKernel.kernel = ["b".toList] := by
  obtain ⟨size, hgives, hpass⟩ := trims_or_stops Store.host (Store.services (sizing sampleSizes))
    (Path.ofText "out.bin".toList) sampleKernels fun _ => none
  have hsizes {e : Text × Text} (he : e ∈ sampleKernels.entries) : size e.1 = sampleSizes e.1 :=
    hgives.eq (gives_of_steady (fun _ _ => rfl) _ _) he
  rcases hpass with ⟨trimmed, t, hends, htrims⟩ | ⟨_, kernel, fragment, _, _, hsplit, -, hover, -⟩
  · refine ⟨by decide +kernel, trimmed, t, hends, ?_⟩
    have hunsized : sampleKernels.keys.filter (fun kernel => (size kernel).isNone)
        = sampleKernels.keys.filter fun kernel => (sampleSizes kernel).isNone := by
      refine List.filter_congr fun kernel hkernel => ?_
      obtain ⟨e, he, rfl⟩ := List.mem_map.mp hkernel
      rw [hsizes he]
    rw [htrims.unsized, hunsized]
    decide +kernel
  · have hmem : (kernel, fragment) ∈ sampleKernels.entries := by simp [hsplit]
    have hfits : ∀ e ∈ sampleKernels.entries, ¬ Overflows e.2 (sampleSizes e.1) := by decide +kernel
    exact absurd (hsizes hmem ▸ hover) (hfits _ hmem)

/-- A kernel with addresses at both ends of the 64 bits, and one with a label that nothing names. -/
def distantAddresses : Keyed Text Text := Keyed.ofList [
  ("a".toList, Fragment.withHeader "a".toList
    "\ts_nop // 0: BF\n\ts_nop // FFFFFFFFFFFFFFFF: BF\n".toList),
  ("b".toList, Fragment.withHeader "b".toList "b:\n\ts_nop // 1000: BF\n".toList)]

def distantSizes (kernel : Text) : Option Nat := if kernel = "a".toList then some 8 else some 4

/-- **Distant addresses in one kernel keep another one from its new text.** -/
theorem not_ends_distantAddresses : replaced distantSizes distantAddresses = ["b".toList] ∧
    ¬ ∃ trimmed t, Ends (sizingPass distantSizes distantAddresses) (fun _ => none) trimmed t := by
  have hstops : givesSome (fun _ => true) (sizingPass distantSizes distantAddresses)
      (fun _ => none) = false := by decide +kernel
  refine ⟨by decide +kernel, ?_⟩
  rintro ⟨trimmed, t, hends⟩
  rw [givesSome, hends] at hstops
  cases hstops

end KernelIsa.Extraction
