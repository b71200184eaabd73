import KernelIsa.Proofs.Build.Store
import KernelIsa.Proofs.Tool.ServingPrograms

/-!
# Proofs/Build/PassFailures — failures of the passes stay local

The passes go through all kernels and binaries of a session, each once and in order, and every
requested pass makes all its attempts, whatever failed before; what a successful attempt leaves is
the same in every run in which it succeeds (`Pass.failures_stay_local`).  One listing is an
exception: where it names the register with the greatest index, statistics stop the whole run
(`Pass.not_ends_lastRegister`).

The samples have the services of a clang installation, with a program that copies listings, or
refuses them, as analyzer (`Store.serves_copyServices`).
-/

namespace KernelIsa

/-! ## A store with a program that copies -/

/-- Tools that make copies of listings. -/
def PassTools.copying : PassTools where
  codeSize := CodeObject.sizeIn
  notes _ := []
  liveRegisters listing _ _ := listing
  graph listing _ _ := listing

namespace Store

/-- The program that copies. -/
def copier : Path := Path.ofText "bin/analyzer".toList

/-- A run of the program that copies, which refuses some listings. -/
def copy (refused : List Path) : (arguments : List Bytes) → StateM Store Finished
  | [_, _, _, listing, report] => do
    if Path.mk listing ∈ refused then return ⟨.exit 1, [], []⟩
    else
      let content ← look ⟨listing⟩
      keep ⟨report⟩ content
      return ⟨.exit 0, [], []⟩
  | _ => return ⟨.exit 2, [], []⟩

/-- The launcher where the only program is the one that copies. -/
def launcher (refused : List Path) : Launcher (StateM Store) where
  launch program arguments := do
    if program = copier then return .ok (← copy refused arguments)
    else return .error .missing
  print _ := return ()

/-- The services of a clang installation without tools, with the program that copies as analyzer. -/
def copyServices (refused : List Path) : Services (StateM Store) :=
  Clang.services {} (launcher refused) files (some copier)

variable {refused : List Path} {store store' : Store} {task : Analyzer.Task}

/-- Launching the program copies the listing, unless it is refused. -/
theorem launched_copier : task.launched (launcher refused) false copier store =
    if task.listing ∈ refused then (.ok ⟨.exit 1, [], []⟩, store)
    else (.ok ⟨.exit 0, [], []⟩, Function.update store task.report (store task.listing)) := by
  have hcopy : ((copy refused task.arguments).run store : Finished × Store) =
      if task.listing ∈ refused then (⟨.exit 1, [], []⟩, store)
      else (⟨.exit 0, [], []⟩, Function.update store task.report (store task.listing)) := by
    rw [Analyzer.Task.arguments, Analyzer.arguments, copy]
    split <;> rfl
  have hlaunch : task.launched (launcher refused) false copier store
      = (.ok ((copy refused task.arguments).run store).1,
        ((copy refused task.arguments).run store).2) := by
    rw [Analyzer.Task.launched, Analyzer.Task.begun, launcher]
    dsimp only
    rw [if_pos rfl]
    rfl
  rw [hlaunch, hcopy]
  split <;> rfl

/-- **The program that copies performs the tasks of tools that make copies**, whichever listings it
refuses. -/
theorem performs_copier (refused : List Path) :
    Analyzer.Performs id (fun (store : Store) p => store p) .copying (launcher refused) files false
      copier where
  kept task store l hl := by
    rw [launched_copier]
    split
    · rfl
    · exact Function.update_of_ne hl _ _
  made task store hends _ := by
    rw [Analyzer.Task.endsWell, launched_copier] at hends
    rw [launched_copier]
    split at hends
    · cases hends
    · next hlisting =>
      rw [if_neg hlisting, PassTools.report]
      cases task.analysis <;> exact Function.update_self task.report _ store

theorem run_read (p : Path) (store : Store) : ((files.read p).run store : _ × Store)
    = ((store p).elim (.error .missing) .ok, store) := by
  have hlook : (look p).run store = pure (store p, store) := rfl
  rw [files]
  dsimp only
  rw [StateT.run_bind, hlook, pure_bind]
  dsimp only
  cases store p <;> rfl

/-- Reading changes nothing. -/
theorem keeps_read (p : Path) : Keeps (fun (store : Store) p => store p) ∅ (files.read p) :=
  fun store l _ => congrArg (fun answered => answered.2 l) (run_read p store)

/-- What is read is what lies there. -/
theorem read_ok {p : Path} {bytes : Bytes} (h : (files.read p).run store = (.ok bytes, store')) :
    store p = some bytes := by
  have hread := (run_read p store).symm.trans h
  cases hp : store p with
  | none =>
    rw [hp] at hread
    cases (Prod.mk.inj hread).1
  | some content =>
    rw [hp] at hread
    rw [Except.ok.inj (Prod.mk.inj hread).1]

/-- **A store with a program that copies serves the passes.** -/
theorem serves_copyServices (refused : List Path) :
    Serves id (fun store p => store p) .copying host (copyServices refused) := by
  refine (Clang.serves_services_iff fun _ _ _ _ => rfl).mpr ⟨?_, performs_copier refused⟩
  exact {
    tell := fun _ => Keeps.pure _
    read := keeps_read
    read_ok := fun _ _ _ _ h => read_ok h
    write := fun p bytes _ l hl => Function.update_of_ne hl _ _
    write_ok := fun p bytes s t h => by
      rw [← (Prod.mk.inj h).2]
      exact Function.update_self p (some bytes) s
    codeSize := fun binary _ => CodeObject.keeps_codeSize (keeps_read binary)
    codeSize_ok := fun _ _ _ _ _ h => CodeObject.codeSize_ok (fun _ _ hread => read_ok hread) h
    notes := fun _ _ _ _ => rfl
    notes_ok := fun _ _ _ _ h => nomatch h
    liveRegisters := fun _ h => nomatch h
    liveRegisters_ok := fun _ h => nomatch h
    graph := fun _ h => nomatch h
    graph_ok := fun _ h => nomatch h }

end Store

namespace Pass

variable {σ : Type}

/-- **Failures of the passes stay local.**  The kernels with a listing and the devices with a binary
are seen each once, in the order of their keys.  The requested passes run one after the other, each
making its attempts once, unless statistics meet a listing that names the register with the greatest
index; a pass comes to the fault of its first attempt that fails.  And where the files of all
attempts are different, the files of an attempt that succeeds in two runs over the same contents are
the same in both. -/
theorem failures_stay_local (host : Host (StateM σ)) (services : Services (StateM σ))
    (request : Request) (session : Session) (s : σ) :
    (session.kernelListings.Pairwise (fun k k' => compare k.key k'.key = .lt) ∧
      ∀ k, k ∈ session.kernelListings ↔ session.records.get? k.key = some k.record ∧
        k.record.success ∧ k.record.listing = some k.listing) ∧
    (session.binaries.Pairwise (fun b b' => compare b.1 b'.1 = .lt) ∧
      ∀ device, (∃ binary, (device, binary) ∈ session.binaries) ↔
        ∃ key record, session.records.get? key = some record ∧ key.device = device ∧
          record.success ∧ record.binary.isSome) ∧
    ((∃ accounts t, Ends (runRequested host services request session all) s () t ∧
        RanAll host services request session (all.filter (isRequested request.outputs)) s accounts
          t) ∨
      ∃ k t, Reaches host services request session (all.filter (isRequested request.outputs)) s k ∧
        Stops (runRequested host services request session all) s .addition t) ∧
    (∀ answers fault, outcome answers = .error fault ↔ ∃ done a rest,
      answers = done ++ (a, .error fault) :: rest ∧ ∀ e ∈ done, e.2 = .ok ()) ∧
    ∀ {L σ' : Type} {place : Path → L} {content : σ → L → Option Bytes}
      {content' : σ' → L → Option Bytes} {tools : PassTools} {host' : Host (StateM σ')}
      {services' : Services (StateM σ')} {accounts accounts' : List Account} {t : σ} {s' t' : σ'},
      Serves place content tools host services → Serves place content' tools host' services' →
      Attempt.AllApart place request.outputs
        ((all.filter (isRequested request.outputs)).flatMap (attempts request.outputs session)) →
      (∀ p, content s (place p) = content' s' (place p)) →
      RanAll host services request session (all.filter (isRequested request.outputs)) s accounts
        t →
      RanAll host' services' request session (all.filter (isRequested request.outputs)) s'
        accounts' t' →
      ∀ a, (a, .ok ()) ∈ accounts.flatMap Account.answers →
        (a, .ok ()) ∈ accounts'.flatMap Account.answers →
        ∀ p ∈ a.outputs request.outputs, content t (place p) = content' t' (place p) := by
  refine ⟨⟨session.pairwise_kernelListings, fun k => Session.mem_kernelListings_iff⟩,
    ⟨session.pairwise_binaries, fun device => Session.exists_mem_binaries_iff⟩,
    ranAll_or_reaches host services request session all s,
    fun answers fault => outcome_eq_error_iff, ?_⟩
  intro L σ' place content content' tools host' services' accounts accounts' t s' t' hserves hserves'
    hapart hseen hran hran' a ha ha' p hp
  exact content_eq_of_ranAll hserves hserves' hapart hseen hran hran' ha ha' hp

/-! ## Two kernels -/

/-- The listing of a kernel, as a session has it. -/
def sampleListing (kernel : Text) : Session.KernelListing :=
  let listing := Path.ofText (kernel ++ ".isa".toList)
  ⟨"gfx900".toList, kernel, listing, .ofListing ⟨listing, false⟩⟩

/-- A session with listings of two kernels. -/
def twoListings : Session :=
  (({} : Session).insert (sampleListing "a".toList).key (sampleListing "a".toList).record).insert
    (sampleListing "b".toList).key (sampleListing "b".toList).record

/-- A request for reports on live registers. -/
def liveRequest : Request := { outputs := { liveVectors := some (Path.ofText "live.txt".toList) } }

/-- The attempt at a report on a kernel. -/
def liveAttempt (kernel : Text) : Attempt :=
  .liveRegisters .vector (Path.ofText "live.txt".toList) (sampleListing kernel)

/-- Files that hold their own names. -/
def namesakes : Store := fun p => some p.bytes

/-- The listing of the first kernel is refused, that of the second is not. -/
theorem exists_ranAll_refused : ∃ t fault, RanAll Store.host
    (Store.copyServices [(sampleListing "a".toList).listing]) liveRequest twoListings
    [.liveRegisters .vector] namesakes [⟨.liveRegisters .vector,
      [(liveAttempt "a".toList, .error fault), (liveAttempt "b".toList, .ok ())], .error fault⟩] t :=
  ⟨_, _, .pass (.attempted rfl rfl (.failure rfl rfl (.success rfl (.done _))) rfl) rfl (.done _)⟩

/-- Neither listing is refused. -/
theorem exists_ranAll_kept : ∃ t, RanAll Store.host (Store.copyServices []) liveRequest
    twoListings [.liveRegisters .vector] namesakes [⟨.liveRegisters .vector,
      [(liveAttempt "a".toList, .ok ()), (liveAttempt "b".toList, .ok ())], .ok ()⟩] t :=
  ⟨_, .pass (.attempted rfl rfl (.success rfl (.success rfl (.done _))) rfl) rfl (.done _)⟩

theorem allApart_liveRequest : Attempt.AllApart id liveRequest.outputs
    ((all.filter (isRequested liveRequest.outputs)).flatMap
      (attempts liveRequest.outputs twoListings)) where
  distinct := by decide +kernel
  unread := by decide +kernel

/-- The report on the second kernel is the same, whether the one on the first fails or not. -/
theorem failures_stay_local_liveRequest : ∃ fault t t',
    RanAll Store.host (Store.copyServices [(sampleListing "a".toList).listing]) liveRequest
      twoListings [.liveRegisters .vector] namesakes [⟨.liveRegisters .vector,
        [(liveAttempt "a".toList, .error fault), (liveAttempt "b".toList, .ok ())], .error fault⟩]
      t ∧
    RanAll Store.host (Store.copyServices []) liveRequest twoListings [.liveRegisters .vector]
      namesakes [⟨.liveRegisters .vector,
        [(liveAttempt "a".toList, .ok ()), (liveAttempt "b".toList, .ok ())], .ok ()⟩] t' ∧
    t (Path.ofText "live-gfx900-b.txt".toList) = t' (Path.ofText "live-gfx900-b.txt".toList) := by
  obtain ⟨t, fault, hran⟩ := exists_ranAll_refused
  obtain ⟨t', hran'⟩ := exists_ranAll_kept
  refine ⟨fault, t, t', hran, hran', ?_⟩
  have hsecond : Path.ofText "live-gfx900-b.txt".toList
      ∈ (liveAttempt "b".toList).outputs liveRequest.outputs := by decide +kernel
  exact (failures_stay_local Store.host _ liveRequest twoListings namesakes).2.2.2.2
    (Store.serves_copyServices _) (Store.serves_copyServices _) allApart_liveRequest
    (fun _ => rfl) hran hran' (liveAttempt "b".toList) (.tail _ (.head _)) (.tail _ (.head _)) _
    hsecond

/-! ## The register with the greatest index -/

/-- A request for statistics and for the session's document. -/
def lastRequest : Request where
  outputs :=
    { statistics := some (Path.ofText "stats.csv".toList)
      session := some (Path.ofText "session.json".toList) }

/-- Listings that name the register with the greatest index. -/
def lastRegister : Store := fun _ => some (Utf8.encode
  (Fragment.withHeader "a".toList "s_mov_b32 s18446744073709551615, 0\n".toList))

/-- **A listing that names the register with the greatest index stops all passes.** -/
theorem not_ends_lastRegister : ¬ ∃ t, Ends (runRequested Store.host (Store.copyServices [])
    lastRequest twoListings all) lastRegister () t := by
  have hstops : givesSome (fun _ => true) (runRequested Store.host (Store.copyServices [])
      lastRequest twoListings all) lastRegister = false := by decide +kernel
  rintro ⟨t, hends⟩
  rw [givesSome, hends] at hstops
  cases hstops

end Pass

end KernelIsa
