import KernelIsa.Build.Pass
import KernelIsa.Proofs.Build.Ending
import KernelIsa.Proofs.Listing.RegisterLimit

/-!
# Proofs/Build/PassAttempts — the attempts of the passes

Every pass is a row of attempts: one for each kernel with a listing, for each binary, or for the
session (`Pass.attempts`, `Pass.run_eq`).  Attempts are made one after the other, each once,
whatever became of those before (`Attempts`), and a pass fails with the first fault among them
(`Pass.Ran`).  So the requested passes run one after the other (`Pass.RanAll`), unless an overflow
stops an attempt (`Pass.ranAll_or_reaches`); that happens to statistics only, over a listing that
names the register with the greatest index (`Attempt.namesLast_of_stops`).
-/

namespace KernelIsa

/-! ## Attempts -/

/-- What a pass attempts for a kernel, for a device's binary, or for the session. -/
inductive Attempt
  | table (k : Session.KernelListing)
  | statistic (base : Path) (k : Session.KernelListing)
  | liveRegisters (kind : Registers.RegisterClass) (base : Path) (k : Session.KernelListing)
  | graphs (k : Session.KernelListing)
  | note (base : Path) (binary : Text × Path)
  | document (path : Path)

namespace Attempt

variable {m : Type → Type} [Monad m]

/-- The pass of an attempt. -/
def pass : Attempt → Pass
  | .table _ => .tables
  | .statistic _ _ => .statistics
  | .liveRegisters kind _ _ => .liveRegisters kind
  | .graphs _ => .graphs
  | .note _ _ => .notes
  | .document _ => .document

/-- Does what is attempted. -/
def act (host : Host m) (services : Services m) (request : Request) (session : Session) :
    Attempt → Step m Unit
  | .table k => Pass.table host k
  | .statistic base k => Pass.statistic host services base k
  | .liveRegisters kind base k => do
    let analyzer ← Pass.requireAnalyzer services (.liveRegisters kind)
    Step.ask (analyzer.liveRegisters k.listing k.device kind
      (outputName base "txt".toList k.device (some k.kernel)))
  | .graphs k => do
    let analyzer ← Pass.requireAnalyzer services .graphs
    Pass.graphsOf analyzer request.outputs k
  | .note base binary => Pass.note host services base binary
  | .document path => do
    let text ← Step.ofExcept (Document.write request.sources session)
    Step.ask (host.files.writeText path text)

/-- The code size of a kernel, if it has a binary. -/
def sizing (services : Services m) (k : Session.KernelListing) : Step m (Option Nat) :=
  match k.record.binary with
  | some binary => Step.ask (services.codeSize binary k.kernel)
  | none => pure none

theorem statistic_eq (host : Host m) (services : Services m) (base : Path)
    (k : Session.KernelListing) : Pass.statistic host services base k = (do
      let codeSize ← sizing services k
      let fragment ← Step.ask (host.files.readText k.listing)
      let table ← Step.ofChecked (Statistics.table k.device k.kernel codeSize fragment)
      Step.ask (host.files.writeText (outputName base "csv".toList k.device (some k.kernel))
        table)) := by
  rw [Pass.statistic, sizing]
  cases k.record.binary <;> rfl

/-- The graph of a kernel in one granularity, if there is a base name for it. -/
def drawing (analyzer : Analyzer m) (k : Session.KernelListing) (granularity : Granularity) :
    Option Path → Step m Unit
  | some base => Step.ask (analyzer.graph k.listing k.device granularity
      (outputName base "dot".toList k.device (some k.kernel)))
  | none => pure ()

theorem graphsOf_eq (analyzer : Analyzer m) (outputs : Outputs) (k : Session.KernelListing) :
    Pass.graphsOf analyzer outputs k = (do
      drawing analyzer k .block outputs.blockGraph
      drawing analyzer k .instruction outputs.instructionGraph) := by
  rw [Pass.graphsOf]
  cases outputs.blockGraph <;> cases outputs.instructionGraph <;> rfl

/-- What is told of a fault for a kernel. -/
def ofKernel (pass : Pass) (k : Session.KernelListing) (fault : Fault) : Notice :=
  .error (pass.name ++ " for ".toList ++ k.kernel ++ " (".toList ++ k.device ++ "): ".toList
    ++ fault.message)

/-- What is told when an attempt fails. -/
def complaint? (fault : Fault) : Attempt → Option Notice
  | .table k => some (ofKernel .tables k fault)
  | .statistic _ k => some (ofKernel .statistics k fault)
  | .liveRegisters kind _ k => some (ofKernel (.liveRegisters kind) k fault)
  | .graphs k => some (ofKernel .graphs k fault)
  | .note _ binary => some (.error (Pass.notes.name ++ " for ".toList ++ binary.1 ++ ": ".toList
      ++ fault.message))
  | .document _ => none

/-- The files that an attempt reads. -/
def inputs : Attempt → List Path
  | .table k => [k.listing]
  | .statistic _ k => k.listing :: k.record.binary.toList
  | .liveRegisters _ _ k => [k.listing]
  | .graphs k => [k.listing]
  | .note _ binary => [binary.2]
  | .document _ => []

/-- The files that an attempt is to write. -/
def outputs (outputs : Outputs) : Attempt → List Path
  | .table k => if k.record.listingIsTemporary then [] else [k.listing.withExtension "csv".toList]
  | .statistic base k => [outputName base "csv".toList k.device (some k.kernel)]
  | .liveRegisters _ base k => [outputName base "txt".toList k.device (some k.kernel)]
  | .graphs k => (outputs.blockGraph.toList ++ outputs.instructionGraph.toList).map fun base =>
      outputName base "dot".toList k.device (some k.kernel)
  | .note base binary => [outputName base "txt".toList binary.1 none]
  | .document path => [path]

end Attempt

/-- Tells a notice if there is one. -/
def tell? {m : Type → Type} [Monad m] (host : Host m) : Option Notice → m Unit
  | some notice => host.tell notice
  | none => return

namespace Pass

variable {m : Type → Type} [Monad m] {α β : Type}

/-- What a pass attempts, in order. -/
def attempts (outputs : Outputs) (session : Session) : Pass → List Attempt
  | .tables => session.kernelListings.map .table
  | .statistics => match outputs.statistics with
    | some base => session.kernelListings.map (.statistic base)
    | none => []
  | .liveRegisters kind => match liveBase outputs kind with
    | some base => session.kernelListings.map (.liveRegisters kind base)
    | none => []
  | .graphs => session.kernelListings.map .graphs
  | .notes => match outputs.notes with
    | some base => session.binaries.map (.note base)
    | none => []
  | .document => match outputs.session with
    | some path => [.document path]
    | none => []

/-- Whether a pass can start: some need an analyzer. -/
def canStart (services : Services m) : Pass → Bool
  | .liveRegisters _ => services.analyzer.isSome
  | .graphs => services.analyzer.isSome
  | .tables | .statistics | .notes | .document => true

/-- What a pass tells before its attempts. -/
def opening? : Pass → Option Notice
  | .statistics => some (.info "Extracting statistics...".toList)
  | .liveRegisters _ => some (.info "Performing live register analysis...".toList)
  | .graphs => some (.info "Extracting control flow graph...".toList)
  | .tables | .notes | .document => none

/-- Makes attempts in order and fails with the first fault. -/
def attempting (host : Host m) (services : Services m) (request : Request) (session : Session)
    (attempts : List Attempt) : Step m Unit :=
  ofFault? (attemptEach (fun a fault => tell? host (a.complaint? fault))
    (Attempt.act host services request session) attempts)

/-- A pass makes attempts of its own only. -/
theorem pass_of_mem {outputs : Outputs} {session : Session} {pass : Pass} {a : Attempt}
    (h : a ∈ pass.attempts outputs session) : a.pass = pass := by
  have hmap {α : Type} {items : List α} {f : α → Attempt} (hf : ∀ item, (f item).pass = pass)
      (hmem : a ∈ items.map f) : a.pass = pass := by
    obtain ⟨item, -, rfl⟩ := List.mem_map.mp hmem
    exact hf item
  cases pass with
  | document =>
    rw [attempts] at h
    split at h
    · rw [List.mem_singleton.mp h]
      rfl
    · cases h
  | tables => exact hmap (fun _ => rfl) h
  | graphs => exact hmap (fun _ => rfl) h
  | _ =>
    rw [attempts] at h
    split at h
    · exact hmap (fun _ => rfl) h
    · cases h

/-! ## Passes as attempts -/

theorem attemptEach_map {tell : α → Fault → m Unit} {action : α → Step m Unit} (f : β → α)
    (items : List β) : attemptEach tell action (items.map f)
      = attemptEach (fun item => tell (f item)) (fun item => action (f item)) items := by
  induction items with
  | nil => rfl
  | cons item items ih =>
    rw [List.map_cons, attemptEach, attemptEach, ih]

/-- One attempt of which nothing is told when it fails is just made. -/
theorem ofFault?_attemptEach_singleton [LawfulMonad m] {tell : α → Fault → m Unit}
    {action : α → Step m Unit} {item : α} (htell : ∀ fault, tell item fault = pure ()) :
    ofFault? (attemptEach tell action [item]) = action item := by
  refine ExceptT.ext (ExceptT.ext ?_)
  rw [ofFault?, attemptEach]
  simp only [attemptEach, htell, liftM_pure, pure_bind, ExceptT.run_bind, ExceptT.run_lift,
    map_eq_pure_bind, bind_assoc]
  refine (bind_congr fun answer => ?_).trans (bind_pure _)
  obtain _ | _ | ⟨⟨⟩⟩ := answer
  · rfl
  · simp only [ExceptT.run_pure, pure_bind, ExceptT.run_throw]
  · simp only [ExceptT.run_pure, pure_bind]

/-- Telling nothing does nothing. -/
theorem tell?_none_bind [LawfulMonad m] (host : Host m) (x : Step m Unit) :
    (do (tell? host none : m Unit); x) = x := by
  rw [tell?, liftM_pure, pure_bind]

variable {host : Host m} {services : Services m} {request : Request} {session : Session} {pass : Pass}

/-- **A requested pass that can start is a row of attempts.** -/
theorem run_of_canStart [LawfulMonad m] (hrequested : pass.isRequested request.outputs)
    (hstart : pass.canStart services) : pass.run host services request session = (do
      (tell? host pass.opening? : m Unit)
      attempting host services request session (pass.attempts request.outputs session)) := by
  cases pass with
  | tables =>
    rw [opening?, tell?_none_bind, attempting, attempts, attemptEach_map]
    rfl
  | statistics =>
    obtain ⟨base, hbase⟩ := Option.isSome_iff_exists.mp hrequested
    rw [run, attempting, attempts, hbase]
    dsimp only
    rw [attemptEach_map]
    rfl
  | liveRegisters kind =>
    obtain ⟨base, hbase⟩ := Option.isSome_iff_exists.mp hrequested
    obtain ⟨analyzer, hanalyzer⟩ := Option.isSome_iff_exists.mp hstart
    rw [run, attempting, attempts, hbase]
    dsimp only
    rw [attemptEach_map, requireAnalyzer, hanalyzer, pure_bind]
    simp only [Attempt.act, requireAnalyzer, hanalyzer, pure_bind]
    rfl
  | graphs =>
    obtain ⟨analyzer, hanalyzer⟩ := Option.isSome_iff_exists.mp hstart
    rw [run, attempting, attempts, attemptEach_map, requireAnalyzer, hanalyzer, pure_bind]
    simp only [Attempt.act, requireAnalyzer, hanalyzer, pure_bind]
    rfl
  | notes =>
    obtain ⟨base, hbase⟩ := Option.isSome_iff_exists.mp hrequested
    rw [run, opening?, tell?_none_bind, attempting, attempts, hbase]
    dsimp only
    rw [attemptEach_map]
    rfl
  | document =>
    obtain ⟨path, hpath⟩ := Option.isSome_iff_exists.mp hrequested
    rw [run, opening?, tell?_none_bind, attempting, attempts, hpath]
    dsimp only
    rw [ofFault?_attemptEach_singleton fun _ => rfl, Attempt.act]

/-- A requested pass that cannot start fails for want of an analyzer. -/
theorem run_of_not_canStart [LawfulMonad m] (hrequested : pass.isRequested request.outputs)
    (hstart : pass.canStart services = false) :
    pass.run host services request session = throw (.noAnalyzer pass.name) := by
  have hthrow {f : Analyzer m → Step m Unit} (hnone : services.analyzer = none) :
      (requireAnalyzer services pass >>= f) = throw (.noAnalyzer pass.name) := by
    rw [requireAnalyzer, hnone]
    exact ExceptT.ext (pure_bind _ _)
  cases pass with
  | liveRegisters kind =>
    obtain ⟨base, hbase⟩ := Option.isSome_iff_exists.mp hrequested
    rw [run, hbase]
    exact hthrow (Option.not_isSome_iff_eq_none.mp (Bool.eq_false_iff.mp hstart))
  | graphs => exact hthrow (Option.not_isSome_iff_eq_none.mp (Bool.eq_false_iff.mp hstart))
  | _ => cases hstart

end Pass

/-! ## Attempts one after the other -/

/-- The first fault among the answers to some attempts. -/
def firstFault? : List (Attempt × Except Fault Unit) → Option Fault
  | [] => none
  | (_, .ok _) :: rest => firstFault? rest
  | (_, .error fault) :: _ => some fault

/-- What a pass comes to whose attempts got some answers. -/
def outcome (answers : List (Attempt × Except Fault Unit)) : Except Fault Unit :=
  match firstFault? answers with
  | some fault => .error fault
  | none => .ok ()

theorem firstFault?_eq_some_iff {answers : List (Attempt × Except Fault Unit)} {fault : Fault} :
    firstFault? answers = some fault ↔ ∃ done a rest,
      answers = done ++ (a, .error fault) :: rest ∧ ∀ e ∈ done, e.2 = .ok () := by
  constructor
  · intro h
    induction answers with
    | nil => cases h
    | cons e answers ih =>
      obtain ⟨a, answer⟩ := e
      cases answer with
      | ok =>
        rw [firstFault?] at h
        obtain ⟨done, a', rest, rfl, hdone⟩ := ih h
        exact ⟨(a, .ok ()) :: done, a', rest, rfl, List.forall_mem_cons.mpr ⟨rfl, hdone⟩⟩
      | error fault' =>
        rw [firstFault?] at h
        obtain rfl := Option.some.inj h
        exact ⟨[], a, answers, rfl, List.forall_mem_nil _⟩
  · rintro ⟨done, a, rest, rfl, hdone⟩
    induction done with
    | nil => rw [List.nil_append, firstFault?]
    | cons e done ih =>
      obtain ⟨a', answer⟩ := e
      obtain ⟨rfl, hrest⟩ := List.forall_mem_cons.mp hdone
      rw [List.cons_append, firstFault?]
      exact ih hrest

/-- **A pass comes to the fault of the first attempt that fails**, and to none if all succeed. -/
theorem outcome_eq_error_iff {answers : List (Attempt × Except Fault Unit)} {fault : Fault} :
    outcome answers = .error fault ↔ ∃ done a rest, answers = done ++ (a, .error fault) :: rest ∧
      ∀ e ∈ done, e.2 = .ok () := by
  rw [← firstFault?_eq_some_iff, outcome]
  cases firstFault? answers with
  | none => exact ⟨nofun, nofun⟩
  | some fault' => rw [Except.error.injEq, Option.some.injEq]

section Runs

variable {σ : Type} (host : Host (StateM σ)) (services : Services (StateM σ)) (request : Request)
  (session : Session)

/-- Attempts that are made one after the other, from a state to another one, with their answers; a
failure is told, and the next attempt is made. -/
inductive Attempts : σ → List (Attempt × Except Fault Unit) → σ → Prop
  | done (s : σ) : Attempts s [] s
  | success {a : Attempt} {answers : List (Attempt × Except Fault Unit)} {s t u : σ}
      (hact : Ends (a.act host services request session).run s (.ok ()) t)
      (hrest : Attempts t answers u) : Attempts s ((a, .ok ()) :: answers) u
  | failure {a : Attempt} {answers : List (Attempt × Except Fault Unit)} {fault : Fault}
      {s t u v : σ} (hact : Ends (a.act host services request session).run s (.error fault) t)
      (htold : (tell? host (a.complaint? fault)).run t = ((), u))
      (hrest : Attempts u answers v) : Attempts s ((a, .error fault) :: answers) v

namespace Pass

/-- A pass from a state to another one, with the answers to its attempts and what it comes to:
without the analyzer that it needs it makes none, otherwise it makes all. -/
inductive Ran (pass : Pass) : σ → List (Attempt × Except Fault Unit) → Except Fault Unit → σ → Prop
  | noAnalyzer (hstart : pass.canStart services = false) (s : σ) :
    Ran pass s [] (.error (.noAnalyzer pass.name)) s
  | attempted {answers : List (Attempt × Except Fault Unit)} {s t u : σ}
      (hstart : pass.canStart services) (hopening : (tell? host pass.opening?).run s = ((), t))
      (hattempts : Attempts host services request session t answers u)
      (hall : answers.map Prod.fst = pass.attempts request.outputs session) :
    Ran pass s answers (outcome answers) u

/-- What is told of a pass that fails. -/
def complaint? (pass : Pass) : Except Fault Unit → Option Notice
  | .ok _ => none
  | .error fault => some (.error (pass.name ++ " failed: ".toList ++ fault.message))

/-- A pass with the answers to its attempts and what it came to. -/
structure Account where
  pass : Pass
  answers : List (Attempt × Except Fault Unit)
  result : Except Fault Unit

/-- Passes that run one after the other, from a state to another one; a failure is told, and the
next pass runs. -/
inductive RanAll : List Pass → σ → List Account → σ → Prop
  | done (s : σ) : RanAll [] s [] s
  | pass {pass : Pass} {passes : List Pass} {answers : List (Attempt × Except Fault Unit)}
      {result : Except Fault Unit} {accounts : List Account} {s t u v : σ}
      (hran : Ran host services request session pass s answers result t)
      (htold : (tell? host (pass.complaint? result)).run t = ((), u))
      (hrest : RanAll passes u accounts v) :
    RanAll (pass :: passes) s (⟨pass, answers, result⟩ :: accounts) v

end Pass

variable {host services request session} {attempts : List Attempt}
  {answers : List (Attempt × Except Fault Unit)} {pass : Pass} {passes : List Pass}
  {result : Except Fault Unit} {overflow : Overflow} {s t : σ}

theorem ends_tell?_iff {notice : Option Notice} :
    Ends (liftM (tell? host notice) : Checked (StateM σ) Unit) s () t ↔
      (tell? host notice).run s = ((), t) := ends_lift_iff

namespace Pass

/-- **Attempting is making each attempt once, in order.** -/
theorem attempts_of_ends {first : Option Fault}
    (h : Ends (attemptEach (fun a fault => tell? host (a.complaint? fault))
      (Attempt.act host services request session) attempts) s first t) :
    ∃ answers, Attempts host services request session s answers t ∧
      answers.map Prod.fst = attempts ∧ first = firstFault? answers := by
  induction attempts generalizing s first with
  | nil =>
    obtain ⟨rfl, rfl⟩ := ends_pure_iff.mp h
    exact ⟨[], .done s, rfl, rfl⟩
  | cons a attempts ih =>
    simp only [attemptEach, ends_bind_iff] at h
    obtain ⟨answer, u, hact, h⟩ := h
    cases answer with
    | ok =>
      obtain ⟨answers, hrest, rfl, rfl⟩ := ih h
      exact ⟨_, .success hact hrest, rfl, rfl⟩
    | error fault =>
      simp only [ends_bind_iff] at h
      obtain ⟨_, v, htold, rest, w, hrest, h⟩ := h
      obtain ⟨rfl, rfl⟩ := ends_pure_iff.mp h
      obtain ⟨answers, hattempts, rfl, -⟩ := ih hrest
      exact ⟨_, .failure hact (ends_tell?_iff.mp htold) hattempts, rfl, rfl⟩

/-- What stops attempting stops an attempt; those before it were made. -/
theorem exists_stops_of_attemptEach
    (h : Stops (attemptEach (fun a fault => tell? host (a.complaint? fault))
      (Attempt.act host services request session) attempts) s overflow t) :
    ∃ answers a rest u, Attempts host services request session s answers u ∧
      attempts = answers.map Prod.fst ++ a :: rest ∧
      Stops (a.act host services request session).run u overflow t := by
  induction attempts generalizing s with
  | nil => exact absurd h not_stops_pure
  | cons a attempts ih =>
    simp only [attemptEach, stops_bind_iff] at h
    obtain hact | ⟨answer, u, hact, h⟩ := h
    · exact ⟨[], a, attempts, s, .done s, rfl, hact⟩
    · cases answer with
      | ok =>
        obtain ⟨answers, a', rest, v, hattempts, rfl, hstops⟩ := ih h
        exact ⟨_, a', rest, v, .success hact hattempts, rfl, hstops⟩
      | error fault =>
        simp only [stops_bind_iff] at h
        obtain htell | ⟨_, v, htold, h | ⟨_, _, -, h⟩⟩ := h
        · exact absurd htell not_stops_lift
        · obtain ⟨answers, a', rest, w, hattempts, rfl, hstops⟩ := ih h
          exact ⟨_, a', rest, w, .failure hact (ends_tell?_iff.mp htold) hattempts, rfl, hstops⟩
        · exact absurd h not_stops_pure

/-- A step that fails with a fault if there is one comes to that fault. -/
theorem ends_ofFault?_iff {x : Checked (StateM σ) (Option Fault)} :
    Ends (ofFault? x).run s result t ↔ ∃ first, Ends x s first t ∧ result = match first with
      | some fault => .error fault
      | none => .ok () := by
  rw [ofFault?, ExceptT.run_bind, ExceptT.run_lift, map_eq_pure_bind, bind_assoc, ends_bind_iff]
  constructor
  · rintro ⟨first, u, hx, h⟩
    rw [pure_bind] at h
    cases first with
    | none =>
      obtain ⟨rfl, rfl⟩ := ends_pure_iff.mp h
      exact ⟨none, hx, rfl⟩
    | some fault =>
      obtain ⟨rfl, rfl⟩ := ends_pure_iff.mp h
      exact ⟨some fault, hx, rfl⟩
  · rintro ⟨first, hx, rfl⟩
    refine ⟨first, t, hx, ?_⟩
    rw [pure_bind]
    cases first with
    | none => exact ends_pure_iff.mpr ⟨rfl, rfl⟩
    | some fault => exact ends_pure_iff.mpr ⟨rfl, rfl⟩

theorem stops_of_ofFault? {x : Checked (StateM σ) (Option Fault)}
    (h : Stops (ofFault? x).run s overflow t) : Stops x s overflow t := by
  rw [ofFault?, ExceptT.run_bind, ExceptT.run_lift, map_eq_pure_bind, bind_assoc, stops_bind_iff] at h
  obtain h | ⟨first, u, -, h⟩ := h
  · exact h
  · rw [pure_bind] at h
    cases first with
    | none => exact absurd h not_stops_pure
    | some fault => exact absurd h not_stops_pure

/-- A step behind a notice ends as it does once that is told. -/
theorem ends_tell?_bind_iff {notice : Option Notice} {x : Step (StateM σ) Unit} :
    Ends ((liftM (tell? host notice) : Step (StateM σ) Unit) >>= fun _ => x).run s result t ↔
      ∃ u, (tell? host notice).run s = ((), u) ∧ Ends x.run u result t := by
  constructor
  · exact fun h => ⟨_, rfl, h⟩
  · rintro ⟨u, htold, h⟩
    obtain rfl : ((tell? host notice).run s : Unit × σ).2 = u := congrArg Prod.snd htold
    exact h

theorem exists_stops_of_tell? {notice : Option Notice} {x : Step (StateM σ) Unit}
    (h : Stops ((liftM (tell? host notice) : Step (StateM σ) Unit) >>= fun _ => x).run s overflow t) :
    ∃ u, (tell? host notice).run s = ((), u) ∧ Stops x.run u overflow t :=
  ⟨((tell? host notice).run s : Unit × σ).2, rfl, h⟩

/-- **A requested pass makes its attempts**, if it can start. -/
theorem ran_of_ends (hrequested : pass.isRequested request.outputs)
    (h : Ends (pass.run host services request session).run s result t) :
    ∃ answers, Ran host services request session pass s answers result t := by
  cases hstart : pass.canStart services with
  | false =>
    rw [run_of_not_canStart hrequested hstart] at h
    obtain ⟨rfl, rfl⟩ := ends_pure_iff.mp h
    exact ⟨[], .noAnalyzer hstart s⟩
  | true =>
    rw [run_of_canStart hrequested hstart, ends_tell?_bind_iff] at h
    obtain ⟨u, hopening, h⟩ := h
    obtain ⟨first, heach, rfl⟩ := ends_ofFault?_iff.mp h
    obtain ⟨answers, hattempts, hall, rfl⟩ := attempts_of_ends heach
    exact ⟨answers, .attempted hstart hopening hattempts hall⟩

/-- What stops a pass stops one of its attempts; those before it were made. -/
theorem exists_stops_of_run (hrequested : pass.isRequested request.outputs)
    (h : Stops (pass.run host services request session).run s overflow t) :
    ∃ u answers a rest v, (tell? host pass.opening?).run s = ((), u) ∧
      Attempts host services request session u answers v ∧
      pass.attempts request.outputs session = answers.map Prod.fst ++ a :: rest ∧
      Stops (a.act host services request session).run v overflow t := by
  cases hstart : pass.canStart services with
  | false =>
    rw [run_of_not_canStart hrequested hstart] at h
    exact absurd h not_stops_pure
  | true =>
    rw [run_of_canStart hrequested hstart] at h
    obtain ⟨u, hopening, h⟩ := exists_stops_of_tell? h
    obtain ⟨answers, a, rest, v, hattempts⟩ := exists_stops_of_attemptEach (stops_of_ofFault? h)
    exact ⟨u, answers, a, rest, v, hopening, hattempts⟩

/-- A requested pass comes before the others. -/
theorem runRequested_cons (hrequested : pass.isRequested request.outputs) :
    runRequested host services request session (pass :: passes) = (do
      let result ← (pass.run host services request session).run
      let _ ← (tell? host (pass.complaint? result) : StateM σ Unit)
      runRequested host services request session passes) := by
  rw [runRequested, if_pos hrequested]
  refine bind_congr fun result => ?_
  cases result with
  | ok => rfl
  | error fault => rfl

/-- **The requested passes run one after the other.** -/
theorem ranAll_of_ends (h : Ends (runRequested host services request session passes) s () t) :
    ∃ accounts, RanAll host services request session
      (passes.filter (isRequested request.outputs)) s accounts t := by
  induction passes generalizing s with
  | nil =>
    obtain ⟨-, rfl⟩ := ends_pure_iff.mp h
    exact ⟨[], .done s⟩
  | cons pass passes ih =>
    cases hrequested : pass.isRequested request.outputs with
    | false =>
      rw [runRequested, if_neg (Bool.eq_false_iff.mp hrequested)] at h
      rw [List.filter_cons_of_neg (Bool.eq_false_iff.mp hrequested)]
      exact ih h
    | true =>
      rw [runRequested_cons hrequested] at h
      simp only [ends_bind_iff] at h
      obtain ⟨result, u, hrun, _, v, htold, h⟩ := h
      obtain ⟨answers, hran⟩ := ran_of_ends hrequested hrun
      obtain ⟨accounts, hrest⟩ := ih h
      rw [List.filter_cons_of_pos hrequested]
      exact ⟨_, .pass hran (ends_tell?_iff.mp htold) hrest⟩

/-- What stops the passes stops a requested one; those before it ran. -/
theorem exists_stops_of_runRequested
    (h : Stops (runRequested host services request session passes) s overflow t) :
    ∃ before pass after accounts u,
      passes.filter (isRequested request.outputs) = before ++ pass :: after ∧
      RanAll host services request session before s accounts u ∧
      pass.isRequested request.outputs ∧
      Stops (pass.run host services request session).run u overflow t := by
  induction passes generalizing s with
  | nil => exact absurd h not_stops_pure
  | cons pass passes ih =>
    cases hrequested : pass.isRequested request.outputs with
    | false =>
      rw [runRequested, if_neg (Bool.eq_false_iff.mp hrequested)] at h
      rw [List.filter_cons_of_neg (Bool.eq_false_iff.mp hrequested)]
      exact ih h
    | true =>
      rw [runRequested_cons hrequested] at h
      rw [List.filter_cons_of_pos hrequested]
      simp only [stops_bind_iff] at h
      obtain hrun | ⟨result, u, hrun, htell | ⟨_, v, htold, h⟩⟩ := h
      · exact ⟨[], pass, _, [], s, rfl, .done s, hrequested, hrun⟩
      · exact absurd htell not_stops_lift
      · obtain ⟨answers, hran⟩ := ran_of_ends hrequested hrun
        obtain ⟨before, pass', after, accounts, w, hpasses, hrest, hstops⟩ := ih h
        exact ⟨pass :: before, pass', after, _, w, congrArg (pass :: ·) hpasses,
          .pass hran (ends_tell?_iff.mp htold) hrest, hstops⟩

end Pass

/-! ## What stops an attempt -/

namespace Attempt

theorem not_stops_requireAnalyzer :
    ¬ Stops (Pass.requireAnalyzer services pass).run s overflow t := by
  rw [Pass.requireAnalyzer]
  cases services.analyzer with
  | none => exact not_stops_step_throw
  | some analyzer => exact not_stops_step_pure

theorem not_stops_sizing {k : Session.KernelListing} :
    ¬ Stops (sizing services k).run s overflow t := by
  rw [sizing]
  cases k.record.binary with
  | none => exact not_stops_step_pure
  | some binary => exact not_stops_step_ask

theorem not_stops_drawing {analyzer : Analyzer (StateM σ)} {k : Session.KernelListing}
    {granularity : Granularity} {base : Option Path} :
    ¬ Stops (drawing analyzer k granularity base).run s overflow t := by
  cases base with
  | none => exact not_stops_step_pure
  | some base => exact not_stops_step_ask

/-- The statistics of a listing overflow over the register with the greatest index only. -/
theorem namesLast_of_table {device kernel fragment : Text} {codeSize : Option Nat}
    (h : Statistics.table device kernel codeSize fragment = .error overflow) :
    Registers.NamesLast fragment := by
  rw [Statistics.table] at h
  cases husage : Registers.usage fragment with
  | ok usage =>
    rw [husage] at h
    cases h
  | error overflow => exact (Registers.usage_eq_error_iff.mp husage).2

/-- **Only statistics are stopped by an overflow**, over a listing that names the register with the
greatest index. -/
theorem namesLast_of_stops {a : Attempt}
    (h : Stops (a.act host services request session).run s overflow t) :
    ∃ base k size u text v, a = .statistic base k ∧ Ends (sizing services k).run s (.ok size) u ∧
      (host.files.readText k.listing).run u = (.ok text, v) ∧ Registers.NamesLast text := by
  cases a with
  | table k =>
    rw [act, Pass.table] at h
    split at h
    · exact absurd h not_stops_step_pure
    · simp only [stops_step_bind_iff, not_stops_step_ask, false_or, and_false, exists_false] at h
  | statistic base k =>
    simp only [act, statistic_eq, stops_step_bind_iff, not_stops_sizing, not_stops_step_ask,
      stops_step_ofChecked_iff, false_or, or_false, and_false, exists_false] at h
    obtain ⟨size, u, hsizing, text, v, hread, htable, -⟩ := h
    exact ⟨base, k, size, u, text, v, rfl, hsizing, ends_step_ask_iff.mp hread,
      namesLast_of_table htable⟩
  | liveRegisters kind base k =>
    simp only [act, stops_step_bind_iff, not_stops_requireAnalyzer, not_stops_step_ask, false_or,
      and_false, exists_false] at h
  | graphs k =>
    simp only [act, graphsOf_eq, stops_step_bind_iff, not_stops_requireAnalyzer, not_stops_drawing,
      false_or, and_false, exists_false] at h
  | note base binary =>
    simp only [act, Pass.note, stops_step_bind_iff, not_stops_step_ask, false_or, and_false,
      exists_false] at h
  | document path =>
    simp only [act, stops_step_bind_iff, not_stops_step_ofExcept, not_stops_step_ask, false_or,
      and_false, exists_false] at h

end Attempt

namespace Pass

/-- Passes that came, from the state `s`, to the statistics of a kernel whose listing names the
register with the greatest index: all passes and all attempts before that were made. -/
inductive Reaches (host : Host (StateM σ)) (services : Services (StateM σ)) (request : Request)
    (session : Session) (passes : List Pass) (s : σ) : Session.KernelListing → Prop
  | statistic {before after : List Pass} {accounts : List Account}
      {answers : List (Attempt × Except Fault Unit)} {base : Path} {k : Session.KernelListing}
      {rest : List Attempt} {size : Option Nat} {text : Text} {u v w x y : σ}
      (hpasses : passes = before ++ .statistics :: after)
      (hran : RanAll host services request session before s accounts u)
      (hopening : (tell? host Pass.statistics.opening?).run u = ((), v))
      (hattempts : Attempts host services request session v answers w)
      (hnext : Pass.statistics.attempts request.outputs session
        = answers.map Prod.fst ++ .statistic base k :: rest)
      (hsizing : Ends (Attempt.sizing services k).run w (.ok size) x)
      (hread : (host.files.readText k.listing).run x = (.ok text, y))
      (hnames : Registers.NamesLast text) : Reaches host services request session passes s k

/-- **The requested passes run one after the other**, or come to statistics that stop them. -/
theorem ranAll_or_reaches (host : Host (StateM σ)) (services : Services (StateM σ))
    (request : Request) (session : Session) (passes : List Pass) (s : σ) :
    (∃ accounts t, Ends (runRequested host services request session passes) s () t ∧
      RanAll host services request session (passes.filter (isRequested request.outputs)) s accounts
        t) ∨
    (∃ k t, Reaches host services request session (passes.filter (isRequested request.outputs)) s k ∧
      Stops (runRequested host services request session passes) s .addition t) := by
  obtain ⟨_, t, hends⟩ | ⟨overflow, t, hstops⟩ :=
    ends_or_stops (runRequested host services request session passes) s
  · obtain ⟨accounts, hran⟩ := ranAll_of_ends hends
    exact .inl ⟨accounts, t, hends, hran⟩
  · obtain ⟨before, pass, after, accounts, u, hpasses, hran, hrequested, hpass⟩ :=
      exists_stops_of_runRequested hstops
    obtain ⟨v, answers, a, rest, w, hopening, hattempts, hnext, hact⟩ :=
      exists_stops_of_run hrequested hpass
    obtain ⟨base, k, size, x, text, y, rfl, hsizing, hread, hnames⟩ :=
      Attempt.namesLast_of_stops hact
    have hmem : Attempt.statistic base k ∈ pass.attempts request.outputs session := by
      rw [hnext]
      exact List.mem_append_right _ List.mem_cons_self
    obtain rfl : Pass.statistics = pass := pass_of_mem hmem
    exact .inr ⟨k, t, .statistic hpasses hran hopening hattempts hnext hsizing hread hnames, hstops⟩

end Pass

end Runs

end KernelIsa
