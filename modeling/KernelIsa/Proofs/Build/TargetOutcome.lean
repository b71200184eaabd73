import KernelIsa.Build.Target
import KernelIsa.Proofs.Artifact.Merge
import KernelIsa.Proofs.Build.Ending

/-!
# Proofs/Build/TargetOutcome — what the build of a target comes to

Whatever the services answer, a build comes to one of three outcomes: no binary, a binary without
listings, or a binary with what an extraction left (`Target.Made`, `made_of_ends`).  From these
alone it follows that a target keeps to records of its own device (`Made.isOf`), that a success has
a record with the binary (`Made.binary_of_succeeded`), and how the target is counted
(`Made.counted`).
-/

namespace KernelIsa

namespace Target

variable {σ : Type} {builder : Builder (StateM σ)} {request : Request} {device compilerName : Text}
  {binary : Placement} {extraction : Extraction} {session : Session} {outcome : Outcome}
  {isCompiled second : Bool} {s t : σ}

/-! ## The outcomes -/

/-- The compilation of a target, as a build starts it. -/
def compiling (builder : Builder (StateM σ)) (request : Request) (device : Text) :
    Checked (StateM σ) (Except Fault Text) := do
  builder.host.tell (.info ("Compiling for ".toList ++ device ++ "...".toList))
  (Target.binary builder request (builder.compilerNames.nameFor device)
    (builder.workspace.binary request.outputs.binary device).path).run

/-- Whether a build that starts in a state gets its binary. -/
def compiles (builder : Builder (StateM σ)) (request : Request) (device : Text) (s : σ) : Bool :=
  gives (compiling builder request device) s

/-- The outcome of a target with a binary, from its records and how its two parts went. -/
def Outcome.ofParts (session : Session) (succeeded : Bool) : Outcome :=
  ⟨session.count { compiled := 1, failed := if succeeded then 0 else 1 }, succeeded⟩

/-- What the build of a device with a given binary can come to, without and with the binary. -/
inductive Made (device : Text) (binary : Placement) : Bool → Outcome → Prop
  | unbuilt : Made device binary false (Outcome.unbuilt device)
  | bare (first : Bool) :
    Made device binary true (Outcome.ofParts (withoutListings device binary) first)
  | listed (first : Bool) (extraction : Extraction) (h : extraction.reduced ≤ extraction.split) :
    Made device binary true (Outcome.ofParts (withListings device binary extraction)
      (first && extraction.fault.isNone))

/-- An extraction reduces no more kernels than it splits off. -/
theorem reduced_le_split {services : Services (StateM σ)} {host : Host (StateM σ)} {path : Path}
    {place : Text → Placement}
    (h : Ends (Extraction.extract host services request device compilerName path place) s
      extraction t) : extraction.reduced ≤ extraction.split := by
  simp only [Extraction.extract, ends_bind_iff] at h
  obtain ⟨_, _, -, result, u, -, h⟩ := h
  cases result with
  | error fault =>
    obtain ⟨rfl, -⟩ := ends_pure_iff.mp h
    exact Nat.le_refl _
  | ok fragments =>
    simp only [ends_bind_iff] at h
    obtain ⟨trimmed, _, -, written, _, -, h⟩ := h
    split at h
    · obtain ⟨_, _, -, h⟩ := ends_bind_iff.mp h
      obtain ⟨rfl, -⟩ := ends_pure_iff.mp h
      exact List.length_filter_le _ _
    · obtain ⟨rfl, -⟩ := ends_pure_iff.mp h
      exact List.length_filter_le _ _

/-- The records of a target with a binary are those with or without listings. -/
theorem listings_ends (h : Ends (listings builder request device compilerName binary) s
      (session, second) t) :
    session = withoutListings device binary ∧ second = true ∨
      ∃ extraction : Extraction, extraction.reduced ≤ extraction.split ∧
        session = withListings device binary extraction ∧ second = extraction.fault.isNone := by
  rw [listings] at h
  split at h
  · obtain ⟨h, -⟩ := ends_pure_iff.mp h
    obtain ⟨rfl, rfl⟩ := Prod.mk.inj h
    exact .inl ⟨rfl, rfl⟩
  · obtain ⟨extraction, u, hextract, h⟩ := ends_bind_iff.mp h
    refine .inr ⟨extraction, reduced_le_split hextract, ?_⟩
    dsimp only at h
    split at h
    · obtain ⟨_, _, -, h⟩ := ends_bind_iff.mp h
      obtain ⟨h, -⟩ := ends_pure_iff.mp h
      obtain ⟨rfl, rfl⟩ := Prod.mk.inj h
      exact ⟨rfl, rfl⟩
    · obtain ⟨h, -⟩ := ends_pure_iff.mp h
      obtain ⟨rfl, rfl⟩ := Prod.mk.inj h
      exact ⟨rfl, rfl⟩

/-- **A build comes to one of the three outcomes.** -/
theorem made_of_ends (h : Ends (build builder request device) s outcome t) :
    Made device (builder.workspace.binary request.outputs.binary device)
      (compiles builder request device s) outcome := by
  simp only [build, ends_bind_iff] at h
  obtain ⟨_, _, htell, result, _, hbinary, h⟩ := h
  have hcompiling : Ends (compiling builder request device) s result _ :=
    ends_bind_iff.mpr ⟨_, _, htell, hbinary⟩
  rw [compiles, hcompiling.gives_eq]
  cases result with
  | error fault =>
    obtain ⟨_, _, -, h⟩ := ends_bind_iff.mp h
    obtain ⟨rfl, -⟩ := ends_pure_iff.mp h
    exact .unbuilt
  | ok words =>
    simp only [ends_bind_iff] at h
    obtain ⟨_, _, -, first, _, -, ⟨session, second⟩, _, hlistings, h⟩ := h
    obtain ⟨rfl, -⟩ := ends_pure_iff.mp h
    obtain ⟨rfl, rfl⟩ | ⟨extraction, hle, rfl, rfl⟩ := listings_ends hlistings
    · rw [Bool.and_true]
      exact .bare first
    · exact .listed first extraction hle

/-! ## The records of an extraction -/

section Extracted

theorem isOf_foldl_insert (records : List (Text × Record)) (h : session.IsOf device) :
    (records.foldl (fun session e => session.insert ⟨device, some e.1⟩ e.2) session).IsOf
      device := by
  induction records generalizing session with
  | nil => exact h
  | cons e records ih => exact ih (h.insert rfl)

theorem tally_foldl_insert (records : List (Text × Record)) (device : Text) (session : Session) :
    (records.foldl (fun session e => session.insert ⟨device, some e.1⟩ e.2) session).tally
      = session.tally := by
  induction records generalizing session with
  | nil => rfl
  | cons e records ih => exact ih _

theorem isOf_withListings (device : Text) (binary : Placement) (extraction : Extraction) :
    (withListings device binary extraction).IsOf device := by
  have hkernels := isOf_foldl_insert extraction.records (Session.isOf_empty device)
  rw [withListings]
  cases extraction.fault with
  | some fault => exact Session.IsOf.insert hkernels rfl
  | none =>
    refine Session.IsOf.setBinary ?_
    split
    · exact hkernels
    · exact Session.IsOf.insert hkernels rfl

theorem tally_withListings (device : Text) (binary : Placement) (extraction : Extraction) :
    (withListings device binary extraction).tally
      = { split := extraction.split, reduced := extraction.reduced } := by
  have hkernels := tally_foldl_insert extraction.records device {}
  have hcounted (session : Session) (h : session.tally = 0) (tally : Tally) :
      (session.count tally).tally = tally := by rw [Session.count, h, zero_add]
  rw [withListings]
  cases extraction.fault with
  | some fault => exact hcounted _ hkernels _
  | none =>
    rw [Session.setBinary]
    dsimp only
    split
    · exact hcounted _ hkernels _
    · exact hcounted _ hkernels _

/-- After an extraction without a fault some record of the device went well and has the binary. -/
theorem exists_withListings (device : Text) (binary : Placement) (h : extraction.fault = none) :
    ∃ key record, (withListings device binary extraction).records.get? key = some record ∧
      record.success ∧ record.binary = some binary.path := by
  have hof := isOf_foldl_insert extraction.records (Session.isOf_empty device)
  rw [withListings, h]
  dsimp only
  split
  · next hany =>
    obtain ⟨⟨key, record⟩, hmem, hsuccess⟩ := List.any_eq_true.mp hany
    obtain ⟨hget, hkey⟩ := Session.mem_deviceRecords_iff.mp hmem
    refine ⟨key, record.withBinary binary, ?_, hsuccess, rfl⟩
    rw [Session.get?_setBinary, hget, Option.map_some, if_pos hkey]
  · refine ⟨⟨device, none⟩, (Record.ofBinary binary).withBinary binary, ?_, rfl, rfl⟩
    rw [Session.get?_setBinary, Session.get?_insert_self, Option.map_some, if_pos rfl]

/-- After an extraction with a fault the device has a failed record. -/
theorem get?_withListings {fault : Fault} (device : Text) (binary : Placement)
    (h : extraction.fault = some fault) :
    (withListings device binary extraction).records.get? ⟨device, none⟩
      = some (Record.failed.withBinary binary) := by
  rw [withListings, h]
  exact Session.get?_insert_self _ _ _

end Extracted

/-! ## What the outcomes have in common -/

namespace Made

/-- **A target keeps to records of its own device.** -/
theorem isOf (h : Made device binary isCompiled outcome) : outcome.session.IsOf device := by
  cases h with
  | unbuilt => exact (Session.isOf_empty device).insert rfl
  | bare => exact (Session.isOf_empty device).insert rfl
  | listed first extraction => exact isOf_withListings device binary extraction

/-- **A target that goes well has a record with its binary.** -/
theorem binary_of_succeeded (h : Made device binary isCompiled outcome)
    (hsucceeded : outcome.succeeded) :
    ∃ key record, outcome.session.records.get? key = some record ∧ record.success ∧
      record.binary = some binary.path := by
  cases h with
  | unbuilt => cases hsucceeded
  | bare => exact ⟨⟨device, none⟩, Record.ofBinary binary, Session.get?_insert_self _ _ _, rfl, rfl⟩
  | listed first extraction =>
    have hfault : extraction.fault.isNone := (Bool.and_eq_true_iff.mp hsucceeded).2
    exact exists_withListings device binary (Option.isNone_iff_eq_none.mp hfault)

/-- **A target has a record, however it ends.** -/
theorem exists_record (h : Made device binary isCompiled outcome) :
    ∃ key, (outcome.session.records.get? key).isSome := by
  cases h with
  | unbuilt => exact ⟨⟨device, none⟩, Option.isSome_of_eq_some (Session.get?_insert_self _ _ _)⟩
  | bare => exact ⟨⟨device, none⟩, Option.isSome_of_eq_some (Session.get?_insert_self _ _ _)⟩
  | listed first extraction =>
    cases hfault : extraction.fault with
    | some fault =>
      exact ⟨⟨device, none⟩, Option.isSome_of_eq_some (get?_withListings device binary hfault)⟩
    | none =>
      obtain ⟨key, record, hget, -⟩ := exists_withListings device binary hfault
      exact ⟨key, Option.isSome_of_eq_some hget⟩

end Made

/-- How a target with given answers to whether it has a binary and whether it went well is counted:
as compiled if it has, as failed if it did not go well. -/
structure Counted (isCompiled succeeded : Bool) (tally : Tally) : Prop where
  compiled : tally.compiled = if isCompiled then 1 else 0
  failed : tally.failed = if succeeded then 0 else 1
  /-- No target goes well without a binary. -/
  compiled_of_succeeded : succeeded → isCompiled
  reduced_le_split : tally.reduced ≤ tally.split

namespace Counted

variable {succeeded : Bool} {tally : Tally}

/-- A target is counted. -/
theorem once (h : Counted isCompiled succeeded tally) : 1 ≤ tally.compiled ∨ 1 ≤ tally.failed := by
  cases isCompiled with
  | true => exact .inl (Nat.le_of_eq h.compiled.symm)
  | false =>
    have hfailed : succeeded = false :=
      Bool.eq_false_iff.mpr fun hsucceeded => by cases h.compiled_of_succeeded hsucceeded
    rw [h.failed, hfailed]
    exact .inr (Nat.le_refl _)

/-- A target that is counted twice failed after its binary was built. -/
theorem twice (h : Counted isCompiled succeeded tally) (hcompiled : 1 ≤ tally.compiled)
    (hfailed : 1 ≤ tally.failed) : isCompiled ∧ !succeeded := by
  rw [h.compiled] at hcompiled
  rw [h.failed] at hfailed
  cases isCompiled <;> cases succeeded <;> simp_all

end Counted

/-- **A target is counted once for its binary and once for its failure.** -/
theorem Made.counted (h : Made device binary isCompiled outcome) :
    Counted isCompiled outcome.succeeded outcome.session.tally := by
  have hparts (session : Session) (hcompiled : session.tally.compiled = 0)
      (hfailed : session.tally.failed = 0) (hle : session.tally.reduced ≤ session.tally.split)
      (succeeded : Bool) : Counted true succeeded (Outcome.ofParts session succeeded).session.tally :=
    { compiled := by
        change session.tally.compiled + 1 = 1
        rw [hcompiled]
      failed := by
        change session.tally.failed + _ = _
        rw [hfailed, Nat.zero_add]
      compiled_of_succeeded := fun _ => rfl
      reduced_le_split := hle }
  cases h with
  | unbuilt =>
    exact { compiled := rfl, failed := rfl, compiled_of_succeeded := fun h => h
            reduced_le_split := Nat.le_refl _ }
  | bare first => exact hparts _ rfl rfl (Nat.le_refl _) first
  | listed first extraction hle =>
    have htally := tally_withListings device binary extraction
    exact hparts _ (by rw [htally]) (by rw [htally]) (by rw [htally]; exact hle) _

end Target

end KernelIsa
