import KernelIsa.Proofs.Build.TargetFiles

/-!
# Proofs/Build/Deeds — what a build does through its host

A builder whose state is any `σ` is turned into one that also notes each `Deed`: a notice told, a
file written or a file removed (`Builder.noted`).  Noting changes nothing else: the noting build
goes as the build does, and only adds deeds at the end (`Follows`, `Target.follows_build`), so that
the `deeds` of a build are those that its noting twin leaves (`Target.ends_noted`).
-/

namespace KernelIsa

variable {σ α β : Type}

/-! ## Deeds -/

/-- Something done through a host, with the answer it got. -/
inductive Deed
  | told (notice : Notice)
  | wrote (path : Path) (content : Bytes) (answer : Except FileError Unit)
  | removed (path : Path) (answer : Except FileError Unit)
  deriving DecidableEq

/-- Whether a file was to be written. -/
def Deed.isWriting : Deed → Bool
  | .wrote _ _ _ => true
  | _ => false

/-- Whether a file was to be written and could not be. -/
def Deed.isRefused : Deed → Bool
  | .wrote _ _ (.error _) => true
  | _ => false

/-- A state with the deeds so far. -/
abbrev Noted (σ : Type) := σ × List Deed

/-- An action of which one deed is noted, together with its answer. -/
def noting (deed : α → Deed) (y : StateM σ α) : StateM (Noted σ) α :=
  fun s => ((y.run s.1 : α × σ).1, ((y.run s.1 : α × σ).2, s.2 ++ [deed (y.run s.1 : α × σ).1]))

/-- The host whose deeds are noted. -/
def Host.noted (host : Host (StateM σ)) : Host (StateM (Noted σ)) where
  files :=
    { (host.along beside).files with
      write := fun p content => noting (.wrote p content) (host.files.write p content)
      remove := fun p => noting (.removed p) (host.files.remove p) }
  tell notice := noting (fun _ => .told notice) (host.tell notice)
  isCancelled := beside host.isCancelled

/-- The builder that notes the deeds of its host. -/
def Builder.noted (builder : Builder (StateM σ)) : Builder (StateM (Noted σ)) where
  host := builder.host.noted
  services := builder.services.along beside
  compilerNames := builder.compilerNames
  workspace := builder.workspace

/-! ## Following -/

/-- The noting action `x` gives what `y` gives, leaves what `y` leaves, and adds deeds that pass a
test. -/
def Follows (test : Deed → Prop) (x : StateM (Noted σ) α) (y : StateM σ α) : Prop :=
  ∀ s deeds, ∃ new, (x.run (s, deeds) : α × Noted σ)
    = ((y.run s : α × σ).1, ((y.run s : α × σ).2, deeds ++ new)) ∧ ∀ d ∈ new, test d

variable {test test' : Deed → Prop}

namespace Follows

theorem pure (a : α) : Follows test (pure a : StateM (Noted σ) α) (pure a) := by
  intro s deeds
  refine ⟨[], ?_, fun _ h => (List.not_mem_nil h).elim⟩
  rw [List.append_nil]
  rfl

theorem beside (y : StateM σ α) : Follows test (KernelIsa.beside y) y := by
  intro s deeds
  refine ⟨[], ?_, fun _ h => (List.not_mem_nil h).elim⟩
  rw [List.append_nil]
  rfl

theorem noting {deed : α → Deed} (h : ∀ a, test (deed a)) (y : StateM σ α) :
    Follows test (KernelIsa.noting deed y) y := by
  intro s deeds
  refine ⟨[deed (y.run s : α × σ).1], rfl, fun d hd => ?_⟩
  rw [List.mem_singleton.mp hd]
  exact h _

/-- **A sequence follows a sequence part by part.** -/
theorem bind {x : StateM (Noted σ) α} {y : StateM σ α} {f : α → StateM (Noted σ) β}
    {g : α → StateM σ β} (hx : Follows test x y) (hf : ∀ a, Follows test (f a) (g a)) :
    Follows test (x >>= f) (y >>= g) := by
  intro s deeds
  obtain ⟨first, hfirst, htest⟩ := hx s deeds
  obtain ⟨second, hsecond, htest'⟩ := hf (y.run s : α × σ).1 (y.run s : α × σ).2 (deeds ++ first)
  refine ⟨first ++ second, ?_, fun d hd => (List.mem_append.mp hd).elim (htest d) (htest' d)⟩
  have hrun : ((x >>= f).run (s, deeds) : β × Noted σ)
      = (f (x.run (s, deeds) : α × Noted σ).1).run (x.run (s, deeds) : α × Noted σ).2 := rfl
  rw [hrun, hfirst, hsecond, List.append_assoc]
  rfl

end Follows

/-! ## Following where an overflow or a fault may stop -/

section Checked

theorem follows_run_pure (a : α) :
    Follows test (pure a : Checked (StateM (Noted σ)) α).run (pure a : Checked (StateM σ) α).run :=
  Follows.pure _

theorem follows_run_lift {x : StateM (Noted σ) α} {y : StateM σ α} (h : Follows test x y) :
    Follows test (liftM x : Checked (StateM (Noted σ)) α).run
      (liftM y : Checked (StateM σ) α).run :=
  h.bind (f := fun a => pure (Except.ok a)) (g := fun a => pure (Except.ok a)) fun _ => Follows.pure _

theorem follows_run_bind {x : Checked (StateM (Noted σ)) α} {y : Checked (StateM σ) α}
    {f : α → Checked (StateM (Noted σ)) β} {g : α → Checked (StateM σ) β}
    (hx : Follows test x.run y.run) (hf : ∀ a, Follows test (f a).run (g a).run) :
    Follows test (x >>= f).run (y >>= g).run := by
  rw [ExceptT.run_bind, ExceptT.run_bind]
  refine hx.bind fun result => ?_
  cases result with
  | ok a => exact hf a
  | error overflow => exact Follows.pure _

theorem follows_step_pure (a : α) :
    Follows test (pure a : Step (StateM (Noted σ)) α).run.run
      (pure a : Step (StateM σ) α).run.run := Follows.pure _

theorem follows_step_throw (fault : Fault) :
    Follows test (throw fault : Step (StateM (Noted σ)) α).run.run
      (throw fault : Step (StateM σ) α).run.run := Follows.pure _

theorem follows_step_ofExcept (result : Except Fault α) :
    Follows test (Step.ofExcept result : Step (StateM (Noted σ)) α).run.run
      (Step.ofExcept result : Step (StateM σ) α).run.run := Follows.pure _

theorem follows_step_ask {x : StateM (Noted σ) (Except Fault α)} {y : StateM σ (Except Fault α)}
    (h : Follows test x y) : Follows test (Step.ask x).run.run (Step.ask y).run.run :=
  follows_run_lift h

theorem follows_step_lift {x : Checked (StateM (Noted σ)) α} {y : Checked (StateM σ) α}
    (h : Follows test x.run y.run) :
    Follows test (ExceptT.lift x : Step (StateM (Noted σ)) α).run.run
      (ExceptT.lift y : Step (StateM σ) α).run.run := by
  rw [ExceptT.run_lift, ExceptT.run_lift, map_eq_pure_bind, map_eq_pure_bind]
  exact follows_run_bind h fun _ => follows_run_pure _

theorem follows_step_bind {x : Step (StateM (Noted σ)) α} {y : Step (StateM σ) α}
    {f : α → Step (StateM (Noted σ)) β} {g : α → Step (StateM σ) β}
    (hx : Follows test x.run.run y.run.run) (hf : ∀ a, Follows test (f a).run.run (g a).run.run) :
    Follows test (x >>= f).run.run (y >>= g).run.run := by
  rw [ExceptT.run_bind, ExceptT.run_bind]
  refine follows_run_bind hx fun result => ?_
  cases result with
  | ok a => exact hf a
  | error fault => exact follows_run_pure _

end Checked

/-! ## How a noting action ends -/

section Ends

variable {x : Checked (StateM (Noted σ)) α} {y : Checked (StateM σ) α} {a : α} {s t : σ}
  {deeds : List Deed} {end' : Noted σ}

/-- Where an action ends, the one that follows it ends as well. -/
theorem Follows.ends (h : Follows test x.run y.run) (hy : Ends y s a t) (deeds : List Deed) :
    ∃ new, Ends x (s, deeds) a (t, deeds ++ new) ∧ ∀ d ∈ new, test d := by
  obtain ⟨new, hrun, htest⟩ := h s deeds
  rw [hy] at hrun
  exact ⟨new, hrun, htest⟩

end Ends

/-! ## Builds -/

section Builds

variable {builder : Builder (StateM σ)} {request : Request} {device compilerName : Text}
  {binary output : Path}
  (htold : ∀ notice, test (.told notice)) (hremoved : ∀ p answer, test (.removed p answer))
  (hwrote : ∀ p content answer, test (.wrote p content answer))

namespace Target

include htold

theorem follows_tell (notice : Notice) :
    Follows test (liftM (builder.noted.host.tell notice) : Checked (StateM (Noted σ)) Unit).run
      (liftM (builder.host.tell notice) : Checked (StateM σ) Unit).run :=
  follows_run_lift (.noting (fun _ => htold notice) _)

theorem follows_step_tell (notice : Notice) :
    Follows test (liftM (builder.noted.host.tell notice) : Step (StateM (Noted σ)) Unit).run.run
      (liftM (builder.host.tell notice) : Step (StateM σ) Unit).run.run :=
  follows_step_lift (follows_tell htold notice)

theorem follows_intermediates {options : Options} {name : Path → Path} (sources : List Path) :
    Follows test
      (intermediates builder.noted options device compilerName name sources).run.run
      (intermediates builder options device compilerName name sources).run.run := by
  induction sources with
  | nil => exact follows_step_pure _
  | cons source sources ih =>
    refine follows_step_bind (follows_step_tell htold _) fun _ => ?_
    refine follows_step_bind (follows_step_ask (.beside _)) fun _ => ?_
    exact follows_step_bind (follows_step_ofExcept _) fun _ => ih

theorem follows_intermediateOrWarnings (words : Text) :
    Follows test (intermediateOrWarnings builder.noted request device compilerName words).run
      (intermediateOrWarnings builder request device compilerName words).run := by
  rw [intermediateOrWarnings, intermediateOrWarnings]
  split
  · refine follows_run_bind (follows_intermediates htold _) fun result => ?_
    cases result with
    | ok => exact follows_run_pure _
    | error fault => exact follows_run_bind (follows_tell htold _) fun _ => follows_run_pure _
  · dsimp only
    split
    · split
      · exact follows_run_bind (follows_tell htold _) fun _ => follows_run_pure _
      · exact follows_run_pure _
    · exact follows_run_pure _

theorem follows_cutKernels (disassembly : Text) (kernels : List Text) :
    Follows test (cutKernels builder.noted binary disassembly kernels).run.run
      (cutKernels builder binary disassembly kernels).run.run := by
  have hcut (result : Except Split.CutFailure Split.Fragments) :
      Follows test (Extraction.ofCut binary result : Step (StateM (Noted σ)) _).run.run
        (Extraction.ofCut binary result : Step (StateM σ) _).run.run := by
    rcases result with (_ | _) | fragments
    · exact Follows.pure _
    · exact Follows.pure _
    · exact Follows.pure _
  refine follows_step_bind (hcut _) fun fragments => ?_
  cases Extraction.shortage? binary fragments with
  | none => exact follows_step_pure _
  | some notice => exact follows_step_bind (follows_step_tell htold _) fun _ => follows_step_pure _

theorem follows_fragments :
    Follows test (Extraction.fragments builder.noted.host builder.noted.services request
        compilerName binary).run.run
      (Extraction.fragments builder.host builder.services request compilerName binary).run.run := by
  refine follows_step_bind (follows_step_ask (.beside _)) fun _ => ?_
  refine follows_step_bind (follows_step_ofExcept _) fun output => ?_
  refine follows_step_bind (follows_step_ask (.beside _)) fun kernels => ?_
  have hrest : Follows test (cutKernels builder.noted binary output.stdout kernels).run.run
      (cutKernels builder binary output.stdout kernels).run.run := follows_cutKernels htold _ _
  cases request.kernel with
  | none => exact hrest
  | some kernel =>
    dsimp only
    split
    · exact follows_step_bind (follows_step_throw _) fun _ => hrest
    · exact hrest

theorem follows_trim (kernel fragment : Text) :
    Follows test
      (Extraction.trim builder.noted.host builder.noted.services binary kernel fragment).run
      (Extraction.trim builder.host builder.services binary kernel fragment).run := by
  refine follows_run_bind (follows_run_lift (.beside _)) fun size => ?_
  rcases size with fault | _ | size
  · exact follows_run_bind (follows_tell htold _) fun _ => follows_run_pure _
  · exact follows_run_bind (follows_tell htold _) fun _ => follows_run_pure _
  · refine follows_run_bind (Follows.pure _) fun reduced => ?_
    cases reduced with
    | unreadable => exact follows_run_bind (follows_tell htold _) fun _ => follows_run_pure _
    | unchanged => exact follows_run_pure _
    | reduced => exact follows_run_pure _

theorem follows_reduceAll (entries : List (Text × Text)) :
    Follows test
      (Extraction.reduceAll builder.noted.host builder.noted.services binary entries).run
      (Extraction.reduceAll builder.host builder.services binary entries).run := by
  induction entries with
  | nil => exact follows_run_pure _
  | cons e entries ih =>
    refine follows_run_bind (follows_trim htold _ _) fun _ => ?_
    exact follows_run_bind ih fun _ => follows_run_pure _

omit htold in
include hwrote in
theorem follows_writeAll (place : Text → Placement) (kernels : List Extraction.TrimmedKernel) :
    Follows test (Extraction.writeAll builder.noted.host place kernels)
      (Extraction.writeAll builder.host place kernels) := by
  induction kernels with
  | nil => exact Follows.pure _
  | cons k kernels ih =>
    rw [Extraction.writeAll, Extraction.writeAll]
    split
    · exact ih.bind fun _ => Follows.pure _
    · have hwrite : Follows test
          (builder.noted.host.files.writeText (place k.kernel).path k.result)
          (builder.host.files.writeText (place k.kernel).path k.result) := by
        refine (Follows.noting (hwrote _ _) _).bind fun answer => ?_
        cases answer with
        | error => exact Follows.pure _
        | ok => exact Follows.pure _
      refine hwrite.bind fun answer => ?_
      cases answer with
      | error => exact Follows.pure _
      | ok => exact ih.bind fun _ => Follows.pure _

include hwrote

theorem follows_extract (place : Text → Placement) :
    Follows test (Extraction.extract builder.noted.host builder.noted.services request device
        compilerName binary place).run
      (Extraction.extract builder.host builder.services request device compilerName binary
        place).run := by
  refine follows_run_bind (follows_tell htold _) fun _ => ?_
  refine follows_run_bind (follows_fragments htold) fun result => ?_
  cases result with
  | error fault => exact follows_run_pure _
  | ok fragments =>
    refine follows_run_bind (follows_reduceAll htold _) fun trimmed => ?_
    refine follows_run_bind (follows_run_lift (follows_writeAll hwrote _ _)) fun written => ?_
    dsimp only
    split
    · exact follows_run_bind (follows_tell htold _) fun _ => follows_run_pure _
    · exact follows_run_pure _

theorem follows_listings (placement : Placement) :
    Follows test (listings builder.noted request device compilerName placement).run
      (listings builder request device compilerName placement).run := by
  rw [listings, listings]
  split
  · exact follows_run_pure _
  · refine follows_run_bind (follows_extract htold hwrote _) fun extraction => ?_
    cases extraction.fault with
    | none => exact follows_run_pure _
    | some fault => exact follows_run_bind (follows_tell htold _) fun _ => follows_run_pure _

omit hwrote
include hremoved

omit htold in
theorem follows_binary :
    Follows test (Target.binary builder.noted request compilerName output).run.run
      (Target.binary builder request compilerName output).run.run := by
  have hremove : Follows test (builder.noted.host.files.remove output)
      (builder.host.files.remove output) := .noting (hremoved _) _
  have hrest : Follows test (compileFresh builder.noted request compilerName output).run.run
      (compileFresh builder request compilerName output).run.run := by
    refine follows_step_bind (follows_step_ask (.beside _)) fun _ => ?_
    refine follows_step_bind (follows_step_ofExcept _) fun _ => ?_
    refine follows_step_bind (follows_step_lift (follows_run_lift (.beside _))) fun isPresent => ?_
    cases isPresent with
    | true => exact follows_step_pure _
    | false => exact follows_step_bind (follows_step_throw _) fun _ => follows_step_pure _
  refine follows_step_bind (follows_step_lift (follows_run_lift hremove)) fun removed => ?_
  cases removed with
  | ok => exact hrest
  | error error =>
    dsimp only
    split
    · exact follows_step_bind (follows_step_throw _) fun _ => hrest
    · exact hrest

theorem follows_compiling :
    Follows test (compiling builder.noted request device).run
      (compiling builder request device).run :=
  follows_run_bind (follows_tell htold _) fun _ => follows_binary hremoved

include hwrote

/-- **The noting build of a target follows the build.** -/
theorem follows_build :
    Follows test (build builder.noted request device).run (build builder request device).run := by
  refine follows_run_bind (follows_tell htold _) fun _ => ?_
  refine follows_run_bind (follows_binary hremoved) fun result => ?_
  cases result with
  | error fault => exact follows_run_bind (follows_tell htold _) fun _ => follows_run_pure _
  | ok words =>
    refine follows_run_bind (follows_tell htold _) fun _ => ?_
    refine follows_run_bind (follows_intermediateOrWarnings htold _) fun first => ?_
    exact follows_run_bind (follows_listings htold hwrote _) fun _ => follows_run_pure _

end Target

end Builds

/-! ## The deeds of a build -/

namespace Target

variable {builder : Builder (StateM σ)} {request : Request} {device : Text} {outcome : Outcome}
  {s t : σ}

/-- What the build of a target does through its host, if it starts in the state `s`. -/
def deeds (builder : Builder (StateM σ)) (request : Request) (device : Text) (s : σ) : List Deed :=
  ((build builder.noted request device).run.run (s, []) : Except Overflow Outcome × Noted σ).2.2

/-- The files that the build of a target writes through its host, with the answers. -/
abbrev writings (builder : Builder (StateM σ)) (request : Request) (device : Text) (s : σ) :
    List Deed :=
  (deeds builder request device s).filter Deed.isWriting

theorem deeds_of_ends {end' : Noted σ}
    (h : Ends (build builder.noted request device) (s, []) outcome end') :
    deeds builder request device s = end'.2 := by
  rw [deeds, h]

/-- **The noting twin of a build leaves its deeds.** -/
theorem ends_noted (h : Ends (build builder request device) s outcome t) :
    Ends (build builder.noted request device) (s, []) outcome
      (t, deeds builder request device s) := by
  have hfollows : Follows (fun _ => True) (build builder.noted request device).run
      (build builder request device).run :=
    follows_build (fun _ => trivial) (fun _ _ => trivial) fun _ _ _ => trivial
  obtain ⟨new, hends, -⟩ := hfollows.ends h []
  rwa [deeds_of_ends hends]

end Target

end KernelIsa
