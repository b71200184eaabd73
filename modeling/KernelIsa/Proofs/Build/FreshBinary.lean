import KernelIsa.Proofs.Build.Accounts
import KernelIsa.Proofs.Build.Presence
import KernelIsa.Proofs.Build.TargetFiles

/-!
# Proofs/Build/FreshBinary — a binary is never that of an earlier build

A build removes what lies at the path of its binary (`Target.removal`), calls the compiler
(`Target.compilation`), and then asks no more than whether something is there.  That is enough: it
goes on only where the removal left nothing (`Target.cleared_of_ends_compiling`), so what is there
after the call was made by it (`Target.MakesBinary`).  Where the removal is refused the build ends
without a call of any service (`Target.ends_build_of_refused`).
-/

namespace KernelIsa.Target

variable {σ C : Type} {builder : Builder (StateM σ)} {at? : σ → Path → Option C}
  {request : Request} {device compilerName words : Text} {output : Path} {s t u : σ}
  {error : FileError}

/-! ## The steps of a compilation -/

/-- Where the binary of a target goes. -/
def binaryPath (builder : Builder (StateM σ)) (request : Request) (device : Text) : Path :=
  (builder.workspace.binary request.outputs.binary device).path

/-- The state in which a build comes to the removal of an older binary. -/
def begun (builder : Builder (StateM σ)) (device : Text) (s : σ) : σ :=
  ((builder.host.tell (.info ("Compiling for ".toList ++ device ++ "...".toList))).run s : Unit × σ).2

/-- The removal of an older binary, in a build from a state: its answer, and what it leaves. -/
def removal (builder : Builder (StateM σ)) (request : Request) (device : Text) (s : σ) :
    Except FileError Unit × σ :=
  (builder.host.files.remove (binaryPath builder request device)).run (begun builder device s)

/-- The call of the compiler behind the removal: its answer, and what it leaves. -/
def compilation (builder : Builder (StateM σ)) (request : Request) (device : Text) (s : σ) :
    Except Fault ToolOutput × σ :=
  (builder.services.compile (builder.compilerNames.nameFor device) request.options request.sources
    (binaryPath builder request device)).run (removal builder request device s).2

/-- A compilation gives the words of a compiler that went well and left something. -/
theorem of_ends_compileFresh
    (h : Ends (compileFresh builder request compilerName output).run s (.ok words) t) :
    ∃ result u, ((builder.services.compile compilerName request.options request.sources output).run s
        : Except Fault ToolOutput × σ) = (.ok result, u) ∧ result.success ∧
      ((builder.host.files.isPresent output).run u : Bool × σ) = (true, t) := by
  obtain ⟨result, u, hcompile, h⟩ := ends_step_bind_iff.mp h
  obtain ⟨checked, v, hcheck, h⟩ := ends_step_bind_iff.mp h
  obtain ⟨hcheck, rfl⟩ := ends_pure_iff.mp hcheck
  obtain ⟨isPresent, w, hpresent, h⟩ := ends_step_bind_iff.mp h
  have hsuccess : result.success := by
    rw [ToolOutput.check] at hcheck
    split at hcheck
    · assumption
    · cases hcheck
  have hasked : ((builder.host.files.isPresent output).run u : Bool × σ) = (isPresent, w) :=
    ends_lift_iff.mp (ends_step_lift_iff.mp hpresent)
  cases isPresent with
  | false =>
    obtain ⟨_, _, hthrow, -⟩ := ends_step_bind_iff.mp h
    cases (ends_pure_iff.mp hthrow).1
  | true =>
    obtain ⟨-, rfl⟩ := ends_pure_iff.mp h
    exact ⟨result, u, ends_step_ask_iff.mp hcompile, hsuccess, hasked⟩

/-- **A build that gets its binary had nothing left to remove**, and goes on to the compiler. -/
theorem cleared_of_ends_compiling (h : Ends (compiling builder request device) s (.ok words) t) :
    ((removal builder request device s).1 = .ok () ∨
      (removal builder request device s).1 = .error .missing) ∧
    Ends (compileFresh builder request (builder.compilerNames.nameFor device)
      (binaryPath builder request device)).run (removal builder request device s).2 (.ok words) t := by
  obtain ⟨_, r, htell, h⟩ := ends_bind_iff.mp h
  obtain rfl : r = begun builder device s := (congrArg Prod.snd (ends_lift_iff.mp htell)).symm
  obtain ⟨answer, u, hremove, h⟩ := ends_step_bind_iff.mp h
  have hremoval : removal builder request device s = (answer, u) :=
    ends_lift_iff.mp (ends_step_lift_iff.mp hremove)
  rw [hremoval]
  cases answer with
  | ok => exact ⟨.inl rfl, h⟩
  | error error =>
    dsimp only at h
    split at h
    · obtain ⟨_, _, hthrow, -⟩ := ends_step_bind_iff.mp h
      cases (ends_pure_iff.mp hthrow).1
    · next hmissing => exact ⟨.inr (congrArg _ (not_not.mp hmissing)), h⟩

/-! ## What the removal leaves -/

/-- A refused removal leaves everything where it was when the build started. -/
theorem at?_removal (hclears : builder.host.Clears at?)
    (hrefused : (removal builder request device s).1 = .error error) :
    at? (removal builder request device s).2 = at? s := by
  have hbegun : at? (begun builder device s) = at? s := hclears.told _ s
  rw [← hbegun]
  exact hclears.refused (Prod.ext hrefused rfl)

/-- Where the file to be removed is missing, nothing was there when the build started. -/
theorem at?_of_missing (hclears : builder.host.Clears at?)
    (hmissing : (removal builder request device s).1 = .error .missing) :
    at? s (binaryPath builder request device) = none := by
  have hbegun : at? (begun builder device s) = at? s := hclears.told _ s
  rw [← hbegun]
  exact hclears.missing (Prod.ext hmissing rfl)

/-! ## A fresh binary -/

/-- The compiler was called where no binary was left, went well, and put the binary there. -/
structure MakesBinary (at? : σ → Path → Option C) (builder : Builder (StateM σ)) (request : Request)
    (device : Text) (s : σ) : Prop where
  /-- A file that was there is removed. -/
  removed : (at? s (binaryPath builder request device)).isSome →
    (removal builder request device s).1 = .ok ()
  /-- Nothing is there when the compiler is called. -/
  cleared : at? (removal builder request device s).2 (binaryPath builder request device) = none
  succeeded : ∃ output, (compilation builder request device s).1 = .ok output ∧ output.success
  /-- Something is there when it ends. -/
  present : (at? (compilation builder request device s).2 (binaryPath builder request device)).isSome

/-- **A build that gets its binary makes it.** -/
theorem makesBinary_of_ends (hclears : builder.host.Clears at?)
    (h : Ends (compiling builder request device) s (.ok words) t) :
    MakesBinary at? builder request device s := by
  obtain ⟨hanswer, hrest⟩ := cleared_of_ends_compiling h
  obtain ⟨result, u, hcompile, hsuccess, hpresent⟩ := of_ends_compileFresh hrest
  have hcompilation : compilation builder request device s = (.ok result, u) := hcompile
  refine {
    removed := fun hearlier => hanswer.resolve_right fun hmissing => ?_
    cleared := ?_
    succeeded := ⟨result, congrArg Prod.fst hcompilation, hsuccess⟩
    present := ?_ }
  · rw [at?_of_missing hclears hmissing] at hearlier
    cases hearlier
  · obtain hok | hmissing := hanswer
    · exact hclears.removed (Prod.ext hok rfl)
    · rw [at?_removal hclears hmissing, at?_of_missing hclears hmissing]
  · rw [hcompilation]
    exact (hclears.isPresent hpresent).1.symm

/-! ## A binary that stays -/

/-- The compilation of a target whose older binary cannot be removed ends with the removal. -/
theorem ends_compiling_of_refused (hrefused : removal builder request device s = (.error error, u))
    (herror : error ≠ .missing) : Ends (compiling builder request device) s
      (.error (.file (binaryPath builder request device) error)) u := by
  refine ends_bind_iff.mpr ⟨(), begun builder device s, ends_lift_iff.mpr rfl, ?_⟩
  rw [Target.binary, ExceptT.run_bind, ends_bind_iff]
  refine ⟨.ok (.error error), u, ends_step_lift_iff.mpr (ends_lift_iff.mpr hrefused), ?_⟩
  dsimp only
  rw [if_pos herror]
  exact ends_pure_iff.mpr ⟨rfl, rfl⟩

/-- The state in which a build ends whose older binary stays: the refusal is told. -/
def refusedAt (builder : Builder (StateM σ)) (request : Request) (device : Text) (error : FileError)
    (s : σ) : σ :=
  ((builder.host.tell (.error ("Compiling for ".toList ++ device ++ " failed: ".toList
    ++ (Fault.file (binaryPath builder request device) error).message))).run
      (removal builder request device s).2 : Unit × σ).2

/-- **Where the older binary cannot be removed, no service is called**: the build ends in one way
with whatever services it has. -/
theorem ends_build_of_refused (hrefused : (removal builder request device s).1 = .error error)
    (herror : error ≠ .missing) (services : Services (StateM σ)) :
    Ends (build { builder with services := services } request device) s (Outcome.unbuilt device)
      (refusedAt builder request device error s) := by
  have hcompiling : Ends (compiling { builder with services := services } request device) s
      (.error (.file (binaryPath builder request device) error))
      (removal builder request device s).2 :=
    ends_compiling_of_refused (Prod.ext hrefused rfl) herror
  obtain ⟨_, r, htell, hbinary⟩ := ends_bind_iff.mp hcompiling
  rw [build]
  refine ends_bind_iff.mpr ⟨_, r, htell, ends_bind_iff.mpr ⟨_, _, hbinary, ?_⟩⟩
  exact ends_bind_iff.mpr ⟨(), _, ends_lift_iff.mpr rfl, ends_pure_iff.mpr ⟨rfl, rfl⟩⟩

/-- **No earlier binary is taken for that of a build.** -/
theorem build_fresh (hclears : builder.host.Clears at?) (s : σ) :
    (∀ outcome t, Ends (build builder request device) s outcome t →
      1 ≤ outcome.session.tally.compiled → MakesBinary at? builder request device s) ∧
    ∀ c, at? s (binaryPath builder request device) = some c →
      (removal builder request device s).1 ≠ .ok () →
      ∃ outcome t,
        (∀ services : Services (StateM σ),
          Ends (build { builder with services := services } request device) s outcome t) ∧
        at? t (binaryPath builder request device) = some c ∧
        outcome.session.tally.compiled = 0 ∧
        ∃ record, outcome.session.records.entries = [(⟨device, none⟩, record)] ∧
          record.success = false ∧ record.binary = none ∧ record.listing = none := by
  refine ⟨fun outcome t h hcompiled => ?_, fun c hc hremoval => ?_⟩
  · have hcounted := (made_of_ends h).counted.compiled
    rw [hcounted] at hcompiled
    split at hcompiled
    · next hcompiles =>
      obtain ⟨words, u, hcompiling⟩ := exists_ends_of_gives hcompiles
      exact makesBinary_of_ends hclears hcompiling
    · cases hcompiled
  · cases hrefused : (removal builder request device s).1 with
    | ok => exact absurd hrefused hremoval
    | error error =>
      have herror : error ≠ .missing := by
        rintro rfl
        rw [at?_of_missing hclears hrefused] at hc
        cases hc
      refine ⟨_, _, ends_build_of_refused hrefused herror, ?_, rfl, _, rfl, rfl, rfl, rfl⟩
      rw [refusedAt, hclears.told, at?_removal hclears hrefused, hc]

/-- A request for the binary of one target. -/
def oneBinary : Request where
  devices := ["gfx900".toList]
  sources := [Path.ofText "k.cl".toList]
  outputs := { binary := some (Path.ofText "k.bin".toList) }

/-- A world in which a node lies where the binary goes. -/
def worldBefore (node : Node) : World where
  disk := Disk.fresh.furnish (Path.ofText "k-gfx900.bin".toList) node

/-- An older file makes way for the binary, a directory of its name does not. -/
theorem build_fresh_worldBefore :
    (∃ outcome t, Ends (build (Run.rehearsed {}) oneBinary "gfx900".toList) (worldBefore (.file []))
        outcome t ∧ 1 ≤ outcome.session.tally.compiled ∧
      MakesBinary World.at? (Run.rehearsed {}) oneBinary "gfx900".toList (worldBefore (.file []))) ∧
    ∃ outcome t,
      (∀ services : Services Bench,
        Ends (build { Run.rehearsed {} with services := services } oneBinary "gfx900".toList)
          (worldBefore .directory) outcome t) ∧
      t.at? (binaryPath (Run.rehearsed {}) oneBinary "gfx900".toList) = some .directory ∧
      outcome.session.tally.compiled = 0 ∧
      ∃ record, outcome.session.records.entries = [(⟨"gfx900".toList, none⟩, record)] ∧
        record.success = false ∧ record.binary = none ∧ record.listing = none := by
  have hfresh := @build_fresh _ _ (Run.rehearsed {}) _ oneBinary "gfx900".toList World.clears_host
  obtain ⟨outcome, t, h, hcompiled⟩ := exists_ends_of_givesSome
    (x := build (Run.rehearsed {}) oneBinary "gfx900".toList) (s := worldBefore (.file []))
    (p := fun outcome => 1 ≤ outcome.session.tally.compiled) (by decide +kernel)
  refine ⟨⟨outcome, t, h, of_decide_eq_true hcompiled,
    (hfresh _).1 outcome t h (of_decide_eq_true hcompiled)⟩, ?_⟩
  exact (hfresh (worldBefore .directory)).2 .directory (by decide +kernel) (by decide +kernel)

end KernelIsa.Target
