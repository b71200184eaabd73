import KernelIsa.Proofs.Build.TargetFiles

/-!
# Proofs/Build/Route — the stages of a build and its exits

A build compiles, inspects the binary with the disassembler and the enumerator, divides the
disassembly into fragments, trims them and writes the listings; it may leave after each stage.  A
`Route` names the stages that were passed and the states between them, and a build ends exactly as
one of its routes does (`Target.route_iff`).
-/

namespace KernelIsa.Target

variable {σ : Type} {builder : Builder (StateM σ)} {request : Request} {device compilerName : Text}
  {binary : Path} {extraction : Extraction} {session : Session} {outcome : Outcome} {second : Bool}
  {s t u v : σ}

/-! ## The stages -/

/-- What the tools say of a binary: its disassembly, and the kernels that are listed for it. -/
structure Inspection where
  disassembly : Text
  kernels : List Text
  deriving DecidableEq

/-- The requested kernel, if it is not among the listed ones. -/
def unlisted? (request : Request) (kernels : List Text) : Option Text :=
  request.kernel.filter fun kernel => !kernels.contains kernel

/-- The build of a target up to its listings.  The answer says whether the intermediate code went
well, if there is a binary. -/
def preparing (builder : Builder (StateM σ)) (request : Request) (device : Text) :
    Checked (StateM σ) (Except Fault Bool) := do
  match ← compiling builder request device with
  | .error fault =>
    builder.host.tell (.error ("Compiling for ".toList ++ device ++ " failed: ".toList
      ++ fault.message))
    return .error fault
  | .ok words =>
    builder.host.tell (.info ("Compiling for ".toList ++ device ++ "... succeeded".toList))
    let first ← intermediateOrWarnings builder request device (builder.compilerNames.nameFor device)
      words
    return .ok first

/-- Has a binary disassembled and its kernels listed. -/
def inspecting (builder : Builder (StateM σ)) (request : Request) (device : Text) (binary : Path) :
    Step (StateM σ) Inspection := do
  let output ← Step.ask (builder.services.disassemble binary (builder.compilerNames.nameFor device)
    request.options.lineNumbers)
  let output ← Step.ofExcept (output.check "disassembler".toList)
  let kernels ← Step.ask (builder.services.kernelNames binary)
  return ⟨output.stdout, kernels⟩

/-- Divides an inspected disassembly into the fragments of the listed kernels. -/
def dividing (builder : Builder (StateM σ)) (request : Request) (binary : Path)
    (inspection : Inspection) : Step (StateM σ) Split.Fragments :=
  match unlisted? request inspection.kernels with
  | some kernel => throw (.unknownKernel kernel)
  | none => cutKernels builder binary inspection.disassembly inspection.kernels

/-- Finding the fragments is inspecting and dividing. -/
theorem fragments_eq (builder : Builder (StateM σ)) (request : Request) (device : Text)
    (binary : Path) :
    Extraction.fragments builder.host builder.services request
      (builder.compilerNames.nameFor device) binary
      = inspecting builder request device binary >>= dividing builder request binary := by
  simp only [Extraction.fragments, inspecting, bind_assoc, pure_bind]
  congr 1; funext output; congr 1; funext output; congr 1; funext kernels
  rw [dividing, unlisted?]
  cases request.kernel with
  | none => rfl
  | some kernel =>
    dsimp only
    rw [Option.filter_some]
    cases kernels.contains kernel with
    | true => rfl
    | false => rfl

/-- Inspects a binary, and tells so. -/
def viewing (builder : Builder (StateM σ)) (request : Request) (device : Text) (binary : Path) :
    Checked (StateM σ) (Except Fault Inspection) := do
  builder.host.tell (.info ("Extracting ISA for ".toList ++ device ++ "...".toList))
  (inspecting builder request device binary).run

/-- What is told when the listings of a device are done, or a fault ended them. -/
def closing (device : Text) : Option Fault → Notice
  | none => .info ("Extracting ISA for ".toList ++ device ++ "... succeeded".toList)
  | some fault =>
    .error ("Extracting ISA for ".toList ++ device ++ " failed: ".toList ++ fault.message)

/-- Trims the fragments of a binary and writes the wanted ones, and tells so if all were written. -/
def finishing (builder : Builder (StateM σ)) (request : Request) (device : Text) (binary : Path)
    (place : Text → Placement) (fragments : Split.Fragments) : Checked (StateM σ) Extraction := do
  let trimmed ← Extraction.reduceAll builder.host builder.services binary fragments.byKernel.entries
  let written ← (Extraction.writeAll builder.host place
    (trimmed.filter fun k => Extraction.isWanted request k.kernel) : StateM σ _)
  if written.fault.isNone then
    builder.host.tell (closing device none)
  return ⟨trimmed.length, (trimmed.filter Extraction.TrimmedKernel.isReduced).length,
    written.records, written.fault⟩

/-! ## Extractions -/

/-- How an extraction goes from a state to another one: what it sees of the binary, and what it
leaves. -/
inductive Extracts (builder : Builder (StateM σ)) (request : Request) (device : Text) (binary : Path)
    (place : Text → Placement) (s : σ) : Option Inspection → Extraction → σ → Prop
  | unseen {fault : Fault} {t : σ}
      (hview : Ends (viewing builder request device binary) s (.error fault) t) :
      Extracts builder request device binary place s none ⟨0, 0, [], some fault⟩ t
  | undivided {inspection : Inspection} {fault : Fault} {u t : σ}
      (hview : Ends (viewing builder request device binary) s (.ok inspection) u)
      (hdivide : Ends (dividing builder request binary inspection).run u (.error fault) t) :
      Extracts builder request device binary place s (some inspection) ⟨0, 0, [], some fault⟩ t
  | divided {inspection : Inspection} {fragments : Split.Fragments}
      {trimmed : List Extraction.TrimmedKernel} {written : Extraction.Written} {u v w t : σ}
      (hview : Ends (viewing builder request device binary) s (.ok inspection) u)
      (hdivide : Ends (dividing builder request binary inspection).run u (.ok fragments) v)
      (htrim : Ends (Extraction.reduceAll builder.host builder.services binary
        fragments.byKernel.entries) v trimmed w)
      (hwrite : ((Extraction.writeAll builder.host place
        (trimmed.filter fun k => Extraction.isWanted request k.kernel)).run w : _ × σ)
          = (written, t)) :
      Extracts builder request device binary place s (some inspection)
        ⟨trimmed.length, (trimmed.filter Extraction.TrimmedKernel.isReduced).length, written.records,
          written.fault⟩ t

variable {place : Text → Placement} {fragments : Split.Fragments}

/-- An extraction views the binary, divides the disassembly and finishes the fragments. -/
theorem extract_eq (builder : Builder (StateM σ)) (request : Request) (device : Text) (binary : Path)
    (place : Text → Placement) :
    Extraction.extract builder.host builder.services request device
        (builder.compilerNames.nameFor device) binary place = (do
      match ← viewing builder request device binary with
      | .error fault => return ⟨0, 0, [], some fault⟩
      | .ok inspection =>
        match ← (dividing builder request binary inspection).run with
        | .error fault => return ⟨0, 0, [], some fault⟩
        | .ok fragments => finishing builder request device binary place fragments) := by
  rw [Extraction.extract, fragments_eq, viewing]
  simp only [bind_assoc, ExceptT.run_bind]
  congr 1; funext _; congr 1; funext seen
  cases seen with
  | error fault => simp only [pure_bind]
  | ok inspection => rfl

/-- What finishing leaves, and where it ends. -/
theorem ends_finishing_iff :
    Ends (finishing builder request device binary place fragments) v extraction t ↔
      ∃ trimmed w written u, Ends (Extraction.reduceAll builder.host builder.services binary
          fragments.byKernel.entries) v trimmed w ∧
        ((Extraction.writeAll builder.host place (trimmed.filter fun k =>
          Extraction.isWanted request k.kernel)).run w : _ × σ) = (written, u) ∧
        extraction = ⟨trimmed.length, (trimmed.filter Extraction.TrimmedKernel.isReduced).length,
          written.records, written.fault⟩ ∧
        if written.fault.isNone
        then ((builder.host.tell (closing device none)).run u : Unit × σ) = ((), t) else u = t := by
  simp only [finishing, ends_bind_iff, ends_lift_iff]
  refine exists_congr fun trimmed => exists_congr fun w => ?_
  constructor
  · rintro ⟨htrim, written, u, hwrite, h⟩
    refine ⟨written, u, htrim, hwrite, ?_⟩
    split at h
    · next hfault =>
      obtain ⟨_, _, hclose, h⟩ := ends_bind_iff.mp h
      obtain ⟨rfl, rfl⟩ := ends_pure_iff.mp h
      exact ⟨rfl, by rwa [if_pos hfault, ← ends_lift_iff]⟩
    · next hfault =>
      obtain ⟨rfl, rfl⟩ := ends_pure_iff.mp h
      exact ⟨rfl, by rw [if_neg hfault]⟩
  · rintro ⟨written, u, htrim, hwrite, rfl, hclose⟩
    refine ⟨htrim, written, u, hwrite, ?_⟩
    split
    · next hfault =>
      rw [if_pos hfault] at hclose
      exact ends_bind_iff.mpr ⟨_, t, ends_lift_iff.mpr hclose, ends_pure_iff.mpr ⟨rfl, rfl⟩⟩
    · next hfault =>
      rw [if_neg hfault] at hclose
      exact ends_pure_iff.mpr ⟨rfl, hclose⟩

/-- **An extraction goes one of these ways**, and tells in the end if it went well. -/
theorem ends_extract_iff :
    Ends (Extraction.extract builder.host builder.services request device
        (builder.compilerNames.nameFor device) binary place) s extraction t ↔
      ∃ inspection u, Extracts builder request device binary place s inspection extraction u ∧
        if extraction.fault.isNone
        then ((builder.host.tell (closing device none)).run u : Unit × σ) = ((), t) else u = t := by
  rw [extract_eq, ends_bind_iff]
  constructor
  · rintro ⟨seen, u, hview, h⟩
    cases seen with
    | error fault =>
      obtain ⟨rfl, rfl⟩ := ends_pure_iff.mp h
      exact ⟨_, _, .unseen hview, rfl⟩
    | ok inspection =>
      obtain ⟨result, v, hdivide, h⟩ := ends_bind_iff.mp h
      cases result with
      | error fault =>
        obtain ⟨rfl, rfl⟩ := ends_pure_iff.mp h
        exact ⟨_, _, .undivided hview hdivide, rfl⟩
      | ok fragments =>
        obtain ⟨trimmed, w, written, _, htrim, hwrite, rfl, hclose⟩ := ends_finishing_iff.mp h
        exact ⟨_, _, .divided hview hdivide htrim hwrite, hclose⟩
  · rintro ⟨inspection, u, hextracts, hclose⟩
    cases hextracts with
    | unseen hview => exact ⟨.error _, u, hview, ends_pure_iff.mpr ⟨rfl, hclose⟩⟩
    | undivided hview hdivide =>
      exact ⟨.ok _, _, hview, ends_bind_iff.mpr ⟨.error _, u, hdivide,
        ends_pure_iff.mpr ⟨rfl, hclose⟩⟩⟩
    | divided hview hdivide htrim hwrite =>
      exact ⟨.ok _, _, hview, ends_bind_iff.mpr ⟨.ok _, _, hdivide,
        ends_finishing_iff.mpr ⟨_, _, _, _, htrim, hwrite, rfl, hclose⟩⟩⟩

/-! ## Builds -/

/-- How the build of a target goes: what it sees of the binary, and what it comes to. -/
inductive Route (builder : Builder (StateM σ)) (request : Request) (device : Text) (s : σ) :
    Option Inspection → Outcome → σ → Prop
  | unbuilt {fault : Fault} {t : σ}
      (hprepare : Ends (preparing builder request device) s (.error fault) t) :
      Route builder request device s none (Outcome.unbuilt device) t
  | bare {first : Bool} {t : σ} (hprepare : Ends (preparing builder request device) s (.ok first) t)
      (hneeds : request.outputs.needsListing = false) :
      Route builder request device s none (Outcome.ofParts
        (withoutListings device (builder.workspace.binary request.outputs.binary device)) first) t
  | listed {first : Bool} {inspection : Option Inspection} {extraction : Extraction} {u v t : σ}
      (hprepare : Ends (preparing builder request device) s (.ok first) u)
      (hneeds : request.outputs.needsListing = true)
      (hextract : Extracts builder request device
        (builder.workspace.binary request.outputs.binary device).path
        (builder.workspace.listing request.outputs.listing device) u inspection extraction v)
      (hclose : ((builder.host.tell (closing device extraction.fault)).run v : Unit × σ) = ((), t)) :
      Route builder request device s inspection (Outcome.ofParts (withListings device
        (builder.workspace.binary request.outputs.binary device) extraction)
          (first && extraction.fault.isNone)) t

/-- After an extraction it is told once how it went: at its end, or by what follows a fault. -/
theorem ends_closing_iff {placement : Placement} :
    (∃ v, (if extraction.fault.isNone
        then ((builder.host.tell (closing device none)).run u : Unit × σ) = ((), v) else u = v) ∧
      Ends (do
        match extraction.fault with
        | some fault => builder.host.tell (closing device (some fault))
        | none => pure ()
        return (withListings device placement extraction, extraction.fault.isNone)
          : Checked (StateM σ) (Session × Bool)) v (session, second) t) ↔
      ((builder.host.tell (closing device extraction.fault)).run u : Unit × σ) = ((), t) ∧
        session = withListings device placement extraction ∧ second = extraction.fault.isNone := by
  generalize withListings device placement extraction = session'
  cases extraction.fault with
  | none =>
    constructor
    · rintro ⟨v, hclose, h⟩
      obtain ⟨heq, rfl⟩ := ends_pure_iff.mp h
      obtain ⟨rfl, rfl⟩ := Prod.mk.inj heq
      exact ⟨hclose, rfl, rfl⟩
    · rintro ⟨hclose, rfl, rfl⟩
      exact ⟨t, hclose, ends_pure_iff.mpr ⟨rfl, rfl⟩⟩
  | some fault =>
    constructor
    · rintro ⟨v, rfl, h⟩
      obtain ⟨_, _, htell, h⟩ := ends_bind_iff.mp h
      obtain ⟨heq, rfl⟩ := ends_pure_iff.mp h
      obtain ⟨rfl, rfl⟩ := Prod.mk.inj heq
      exact ⟨ends_lift_iff.mp htell, rfl, rfl⟩
    · rintro ⟨hclose, rfl, rfl⟩
      exact ⟨u, rfl, ends_bind_iff.mpr ⟨_, t, ends_lift_iff.mpr hclose, ends_pure_iff.mpr ⟨rfl, rfl⟩⟩⟩

/-- The listings of a target are extracted, and told to be done or to have failed. -/
theorem ends_listings_iff {placement : Placement} (hneeds : request.outputs.needsListing = true) :
    Ends (listings builder request device (builder.compilerNames.nameFor device) placement) s
        (session, second) t ↔
      ∃ inspection extraction u, Extracts builder request device placement.path
          (builder.workspace.listing request.outputs.listing device) s inspection extraction u ∧
        ((builder.host.tell (closing device extraction.fault)).run u : Unit × σ) = ((), t) ∧
        session = withListings device placement extraction ∧ second = extraction.fault.isNone := by
  have hneeds' : (!request.outputs.needsListing) ≠ true := by simp [hneeds]
  rw [listings, if_neg hneeds', ends_bind_iff]
  constructor
  · rintro ⟨extraction, v, hextract, hsettle⟩
    obtain ⟨inspection, u, hextracts, hclose⟩ := ends_extract_iff.mp hextract
    exact ⟨inspection, extraction, u, hextracts, ends_closing_iff.mp ⟨v, hclose, hsettle⟩⟩
  · rintro ⟨inspection, extraction, u, hextracts, hend⟩
    obtain ⟨v, hclose, hsettle⟩ := ends_closing_iff.mpr hend
    exact ⟨extraction, v, ends_extract_iff.mpr ⟨inspection, u, hextracts, hclose⟩, hsettle⟩

/-- A build prepares, and goes on to the listings if there is a binary. -/
theorem build_eq (builder : Builder (StateM σ)) (request : Request) (device : Text) :
    build builder request device = do
      match ← preparing builder request device with
      | .error _ => return Outcome.unbuilt device
      | .ok first =>
        let (session, second) ← listings builder request device
          (builder.compilerNames.nameFor device)
          (builder.workspace.binary request.outputs.binary device)
        return Outcome.ofParts session (first && second) := by
  simp only [build, preparing, compiling, bind_assoc]
  congr 1; funext _; congr 1; funext result
  cases result with
  | error fault => simp only [bind_assoc, pure_bind]
  | ok words =>
    simp only [bind_assoc, pure_bind]
    rfl

/-- **A build goes one of these ways.** -/
theorem route_iff : Ends (build builder request device) s outcome t ↔
    ∃ inspection, Route builder request device s inspection outcome t := by
  rw [build_eq, ends_bind_iff]
  constructor
  · rintro ⟨prepared, u, hprepare, h⟩
    cases prepared with
    | error fault =>
      obtain ⟨rfl, rfl⟩ := ends_pure_iff.mp h
      exact ⟨none, .unbuilt hprepare⟩
    | ok first =>
      obtain ⟨⟨session, second⟩, v, hlistings, h⟩ := ends_bind_iff.mp h
      obtain ⟨rfl, rfl⟩ := ends_pure_iff.mp h
      cases hneeds : request.outputs.needsListing with
      | false =>
        rw [listings, hneeds] at hlistings
        obtain ⟨heq, rfl⟩ := ends_pure_iff.mp hlistings
        obtain ⟨rfl, rfl⟩ := Prod.mk.inj heq
        rw [Bool.and_true]
        exact ⟨none, .bare hprepare hneeds⟩
      | true =>
        obtain ⟨inspection, extraction, w, hextracts, hclose, rfl, rfl⟩ :=
          (ends_listings_iff hneeds).mp hlistings
        exact ⟨inspection, .listed hprepare hneeds hextracts hclose⟩
  · rintro ⟨inspection, hroute⟩
    cases hroute with
    | unbuilt hprepare => exact ⟨.error _, t, hprepare, ends_pure_iff.mpr ⟨rfl, rfl⟩⟩
    | @bare first _ hprepare hneeds =>
      refine ⟨.ok first, t, hprepare, ends_bind_iff.mpr ⟨(withoutListings device
        (builder.workspace.binary request.outputs.binary device), true), t, ?_,
        ends_pure_iff.mpr ⟨?_, rfl⟩⟩⟩
      · rw [listings, hneeds]
        exact ends_pure_iff.mpr ⟨rfl, rfl⟩
      · rw [Bool.and_true]
    | listed hprepare hneeds hextract hclose =>
      refine ⟨.ok _, _, hprepare, ends_bind_iff.mpr ⟨(_, _), t, ?_, ends_pure_iff.mpr ⟨rfl, rfl⟩⟩⟩
      exact (ends_listings_iff hneeds).mpr ⟨inspection, _, _, hextract, hclose, rfl, rfl⟩

end KernelIsa.Target
