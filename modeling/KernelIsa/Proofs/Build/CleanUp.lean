import KernelIsa.Proofs.Bench.DiskChanges
import KernelIsa.Proofs.Build.Leftovers

/-!
# Proofs/Build/CleanUp — what is removed at the end of a run

A run that comes to its end (`Run.Reaches`) removes one file after the other (`Sweep`), and these
are the temporary files that its visits left (`Run.exists_cleansUp`).  Where the host removes files
as a file system does (`Host.Removes`), a file that was removed or missing is gone afterwards, no
other file is, and the run counts those that were there (`Sweep.exists_swept`).
-/

namespace KernelIsa

variable {σ L : Type} {host : Host (StateM σ)} {place? : σ → Path → Option L}
  {outcomes : List (Path × Except FileError Unit)} {s t u v : σ}

/-! ## Removing files one after the other -/

/-- What is told of a temporary file that cannot be removed. -/
def unremoved (p : Path) (error : FileError) : Notice :=
  .warning ("Cannot remove temporary file ".toList ++ p.display ++ ": ".toList ++ error.message)

/-- Some files are removed one after the other, with the answers of the host; an error is told,
unless the file is missing. -/
inductive Sweep (host : Host (StateM σ)) : σ → List (Path × Except FileError Unit) → σ → Prop
  | done (s : σ) : Sweep host s [] s
  | removed {p : Path} {rest : List (Path × Except FileError Unit)} {s u t : σ}
      (hremove : (host.files.remove p).run s = (.ok (), u)) (hrest : Sweep host u rest t) :
      Sweep host s ((p, .ok ()) :: rest) t
  | missing {p : Path} {rest : List (Path × Except FileError Unit)} {s u t : σ}
      (hremove : (host.files.remove p).run s = (.error .missing, u)) (hrest : Sweep host u rest t) :
      Sweep host s ((p, .error .missing) :: rest) t
  | refused {p : Path} {error : FileError} {rest : List (Path × Except FileError Unit)} {s u v t : σ}
      (herror : error ≠ .missing) (hremove : (host.files.remove p).run s = (.error error, u))
      (htell : (host.tell (unremoved p error)).run u = ((), v)) (hrest : Sweep host v rest t) :
      Sweep host s ((p, .error error) :: rest) t

/-- How often the answer was that the file is removed. -/
def removals (outcomes : List (Path × Except FileError Unit)) : Nat :=
  outcomes.countP fun o => o.2.isOk

theorem removals_ok (p : Path) (rest : List (Path × Except FileError Unit)) :
    removals ((p, .ok ()) :: rest) = removals rest + 1 := List.countP_cons_of_pos rfl

theorem removals_error (p : Path) (error : FileError) (rest : List (Path × Except FileError Unit)) :
    removals ((p, .error error) :: rest) = removals rest := List.countP_cons_of_neg nofun

/-- **Removing some files is a sweep over them**, and counts the files that were removed. -/
theorem exists_sweep (host : Host (StateM σ)) (files : List Path) (s : σ) :
    ∃ outcomes t, Sweep host s outcomes t ∧ outcomes.map Prod.fst = files ∧
      (Run.removeAll host files).run s = ((removals outcomes, t) : Nat × σ) := by
  induction files generalizing s with
  | nil => exact ⟨[], s, .done s, rfl, rfl⟩
  | cons p rest ih =>
    simp only [Run.removeAll, StateT.run_bind]
    generalize hremove : ((host.files.remove p).run s : Except FileError Unit × σ) = answered
    obtain ⟨answer, u⟩ := answered
    cases answer with
    | ok =>
      obtain ⟨outcomes, t, hsweep, rfl, hrun⟩ := ih u
      refine ⟨_, t, .removed hremove hsweep, rfl, ?_⟩
      change ((Run.removeAll host _ >>= fun n => pure (n + 1)).run u : Nat × σ) = _
      rw [StateT.run_bind, hrun, removals_ok]
      rfl
    | error error =>
      by_cases herror : error = .missing
      · obtain ⟨outcomes, t, hsweep, rfl, hrun⟩ := ih u
        subst herror
        refine ⟨_, t, .missing hremove hsweep, rfl, ?_⟩
        rw [removals_error]
        exact hrun
      · obtain ⟨outcomes, t, hsweep, rfl, hrun⟩ :=
          ih ((host.tell (unremoved p error)).run u : _ × σ).2
        refine ⟨_, t, .refused herror hremove rfl hsweep, rfl, ?_⟩
        rw [removals_error]
        change (ite (error ≠ .missing) (host.tell (unremoved p error) >>= fun _ =>
          Run.removeAll host _) _ : StateM σ Nat).run u = _
        rw [if_pos herror, StateT.run_bind]
        exact hrun

/-! ## What is gone then -/

/-- The host removes files as a file system does that leads each path to one place at most: a
removed file is gone from its place, for all paths that led there; a missing file has no place; and
neither errors nor notices change a place. -/
structure Host.Removes (host : Host (StateM σ)) (place? : σ → Path → Option L) : Prop where
  removed : ∀ {p s t}, (host.files.remove p).run s = ((.ok (), t) : Except FileError Unit × σ) →
    ∃ l, place? s p = some l ∧ ∀ q l', place? t q = some l' ↔ place? s q = some l' ∧ l' ≠ l
  missing : ∀ {p s t},
    (host.files.remove p).run s = ((.error .missing, t) : Except FileError Unit × σ) →
    place? s p = none
  refused : ∀ {p error s t},
    (host.files.remove p).run s = ((.error error, t) : Except FileError Unit × σ) →
    place? t = place? s
  told : ∀ {notice s t}, (host.tell notice).run s = (((), t) : Unit × σ) → place? t = place? s

/-- What a sweep does to the places of files, by the list of those that it empties. -/
structure Swept (place? : σ → Path → Option L) (s : σ)
    (outcomes : List (Path × Except FileError Unit)) (t : σ) (emptied : List L) : Prop where
  /-- A file that was removed or missing is not there. -/
  gone : ∀ o ∈ outcomes, o.2 = .ok () ∨ o.2 = .error .missing → place? t o.1 = none
  /-- No other file is gone, and none is there that was not. -/
  kept : ∀ q l, place? t q = some l ↔ place? s q = some l ∧ l ∉ emptied
  /-- The emptied places are those of the files that were there and are not there any more. -/
  emptied_iff : ∀ l, l ∈ emptied ↔ ∃ o ∈ outcomes, place? s o.1 = some l ∧ place? t o.1 ≠ some l
  nodup : emptied.Nodup
  /-- As many files are counted. -/
  counted : emptied.length = removals outcomes

namespace Swept

variable {emptied : List L}

/-- The emptied places are known from the places before and after. -/
theorem of_kept (hgone : ∀ o ∈ outcomes, o.2 = .ok () ∨ o.2 = .error .missing → place? t o.1 = none)
    (hkept : ∀ q l, place? t q = some l ↔ place? s q = some l ∧ l ∉ emptied)
    (hsound : ∀ l ∈ emptied, ∃ o ∈ outcomes, place? s o.1 = some l) (hnodup : emptied.Nodup)
    (hcounted : emptied.length = removals outcomes) : Swept place? s outcomes t emptied := by
  refine ⟨hgone, hkept, fun l => ⟨fun hl => ?_, ?_⟩, hnodup, hcounted⟩
  · obtain ⟨o, ho, hplace⟩ := hsound l hl
    exact ⟨o, ho, hplace, fun hstill => ((hkept o.1 l).mp hstill).2 hl⟩
  · rintro ⟨o, -, hplace, hgone⟩
    by_contra hl
    exact hgone ((hkept o.1 l).mpr ⟨hplace, hl⟩)

/-- A path that leads nowhere leads nowhere afterwards. -/
theorem eq_none (h : Swept place? s outcomes t emptied) {p : Path} (hp : place? s p = none) :
    place? t p = none := by
  rw [Option.eq_none_iff_forall_ne_some] at hp ⊢
  exact fun l hl => hp l ((h.kept p l).mp hl).1

/-- What was removed in front of a sweep is emptied too. -/
theorem removed {p : Path} {l : L} (h : Swept place? u outcomes t emptied)
    (hplace : place? s p = some l)
    (hu : ∀ q l', place? u q = some l' ↔ place? s q = some l' ∧ l' ≠ l) :
    Swept place? s ((p, .ok ()) :: outcomes) t (l :: emptied) := by
  have hp : place? u p = none := by
    rw [Option.eq_none_iff_forall_ne_some]
    intro l' hl'
    obtain ⟨heq, hne⟩ := (hu p l').mp hl'
    exact hne (Option.some.inj (heq.symm.trans hplace))
  have hsound (l' : L) (hl' : l' ∈ emptied) :
      ∃ o ∈ outcomes, place? s o.1 = some l' ∧ l' ≠ l := by
    obtain ⟨o, ho, hplace', -⟩ := (h.emptied_iff l').mp hl'
    exact ⟨o, ho, (hu o.1 l').mp hplace'⟩
  refine .of_kept (fun o ho hans => ?_) (fun q l' => ?_) (fun l' hl' => ?_) ?_ ?_
  · rcases List.mem_cons.mp ho with rfl | ho
    · exact h.eq_none hp
    · exact h.gone o ho hans
  · rw [h.kept, hu, List.mem_cons, not_or, and_assoc]
  · rcases List.mem_cons.mp hl' with rfl | hl'
    · exact ⟨_, List.mem_cons_self, hplace⟩
    · obtain ⟨o, ho, hplace', -⟩ := hsound l' hl'
      exact ⟨o, List.mem_cons_of_mem _ ho, hplace'⟩
  · refine List.nodup_cons.mpr ⟨fun hl => ?_, h.nodup⟩
    obtain ⟨-, -, -, hne⟩ := hsound l hl
    exact hne rfl
  · rw [List.length_cons, h.counted, removals_ok]

/-- An error in front of a sweep empties nothing. -/
theorem refused {p : Path} {error : FileError} (h : Swept place? u outcomes t emptied)
    (hu : place? u = place? s) (hmissing : error = .missing → place? s p = none) :
    Swept place? s ((p, .error error) :: outcomes) t emptied := by
  refine .of_kept (fun o ho hans => ?_) (fun q l => ?_) (fun l hl => ?_) h.nodup ?_
  · rcases List.mem_cons.mp ho with rfl | ho
    · refine h.eq_none (hu ▸ hmissing ?_)
      exact Except.error.inj (hans.resolve_left nofun)
    · exact h.gone o ho hans
  · rw [h.kept, hu]
  · obtain ⟨o, ho, hplace, -⟩ := (h.emptied_iff l).mp hl
    exact ⟨o, List.mem_cons_of_mem _ ho, hu ▸ hplace⟩
  · rw [h.counted, removals_error]

end Swept

/-- **A sweep leaves none of the files that it could remove, takes no others, and counts those that
were there.** -/
theorem Sweep.exists_swept (h : Sweep host s outcomes t) (hremoves : host.Removes place?) :
    ∃ emptied, Swept place? s outcomes t emptied := by
  induction h with
  | done s =>
    exact ⟨[], .of_kept (fun _ ho => (List.not_mem_nil ho).elim) (fun _ _ => by simp)
      (fun _ hl => (List.not_mem_nil hl).elim) .nil rfl⟩
  | removed hremove _ ih =>
    obtain ⟨emptied, hswept⟩ := ih
    obtain ⟨l, hplace, hu⟩ := hremoves.removed hremove
    exact ⟨l :: emptied, hswept.removed hplace hu⟩
  | missing hremove _ ih =>
    obtain ⟨emptied, hswept⟩ := ih
    exact ⟨emptied, hswept.refused (hremoves.refused hremove) fun _ => hremoves.missing hremove⟩
  | refused herror hremove htell _ ih =>
    obtain ⟨emptied, hswept⟩ := ih
    exact ⟨emptied, hswept.refused ((hremoves.told htell).trans (hremoves.refused hremove))
      fun hmissing => absurd hmissing herror⟩

/-- **A world removes files as a file system does.** -/
theorem World.removes_host : World.host.Removes fun world p => world.disk.place? p where
  removed h := by
    obtain ⟨disk, hremove, -, rfl⟩ | ⟨_, -, hanswer, -⟩ := removed_or_refused h
    · obtain ⟨l, hplace, hdisk⟩ := Disk.place?_remove hremove
      refine ⟨l, hplace, fun q l' => ?_⟩
      rw [hdisk]
      grind
    · cases hanswer
  missing h := by
    obtain ⟨_, -, hanswer, -⟩ | ⟨error, hremove, hanswer, -⟩ := removed_or_refused h
    · cases hanswer
    · obtain rfl := Except.error.inj hanswer
      exact Disk.place?_eq_none_of_remove hremove
  refused h := by
    obtain ⟨_, -, hanswer, -⟩ | ⟨_, -, -, rfl⟩ := removed_or_refused h
    · cases hanswer
    · rfl
  told h := by
    rw [← (Prod.mk.inj h).2]

/-! ## The end of a run -/

namespace Run

variable {builder : Builder (StateM σ)} {resolver : Resolver} {request : Request}
  {compiled : Compiled} {report : Report}

/-- The passes of a run end, unless the only device failed, so that there are none. -/
inductive Passed (builder : Builder (StateM σ)) (request : Request) (compiled : Compiled) (u : σ) :
    σ → Prop
  | made {v : σ} (hgoes : (compiled.succeeded || request.isBatch) = true)
      (hpasses : Ends (Pass.runRequested builder.host builder.services request compiled.session
        Pass.all) u () v) : Passed builder request compiled u v
  | skipped (hstops : (compiled.succeeded || request.isBatch) = false) :
    Passed builder request compiled u u

/-- A run comes to its end: it compiles, and its passes end in the state `v`. -/
structure Reaches (builder : Builder (StateM σ)) (resolver : Resolver) (request : Request) (s : σ)
    (compiled : Compiled) (v : σ) : Prop where
  sources : request.sources.isEmpty = false
  compiled : ∃ u, Ends (compile builder resolver request).run s (.ok compiled) u ∧
    Passed builder request compiled u v

/-- What comes after the passes starts where they end. -/
theorem ends_passes_iff {rest : Step (StateM σ) Report} :
    Ends (if (compiled.succeeded || request.isBatch) = true then (do
        (ExceptT.lift (Pass.runRequested builder.host builder.services request compiled.session
          Pass.all) : Step (StateM σ) Unit)
        rest) else rest).run u (.ok report) t ↔
      ∃ v, Passed builder request compiled u v ∧ Ends rest.run v (.ok report) t := by
  constructor
  · intro h
    split at h
    · next hgoes =>
      obtain ⟨_, v, hpasses, hrest⟩ := ends_step_bind_iff.mp h
      exact ⟨v, .made hgoes (ends_step_lift_iff.mp hpasses), hrest⟩
    · next hstops => exact ⟨u, .skipped (Bool.eq_false_iff.mpr hstops), h⟩
  · rintro ⟨v, hpassed, hrest⟩
    cases hpassed with
    | made hgoes hpasses =>
      rw [if_pos hgoes]
      exact ends_step_bind_iff.mpr ⟨(), v, ends_step_lift_iff.mpr hpasses, hrest⟩
    | skipped hstops => rwa [if_neg (Bool.eq_false_iff.mp hstops)]

/-- A clean-up always ends, and its session is reported. -/
theorem ends_report_iff : Ends (do
      let session ← (cleanUp builder.host compiled.session : StateM σ Session)
      return ⟨compiled.succeeded, request.isBatch, session⟩ : Step (StateM σ) Report).run v
        (.ok report) t ↔
      ∃ session, (cleanUp builder.host compiled.session).run v = ((session, t) : Session × σ) ∧
        report = ⟨compiled.succeeded, request.isBatch, session⟩ := by
  rw [ends_step_bind_iff]
  constructor
  · rintro ⟨session, u, hclean, hreport⟩
    obtain ⟨heq, rfl⟩ := ends_pure_iff.mp hreport
    exact ⟨session, ends_lift_iff.mp (ends_step_lift_iff.mp hclean), (Except.ok.inj heq).symm⟩
  · rintro ⟨session, hclean, rfl⟩
    exact ⟨session, t, ends_step_lift_iff.mpr (ends_lift_iff.mpr hclean),
      ends_pure_iff.mpr ⟨rfl, rfl⟩⟩

/-- **A run gives a report exactly if it comes to its end**, and then reports what the clean-up
leaves. -/
theorem ends_run_iff : Ends (run builder resolver request).run s (.ok report) t ↔
    ∃ compiled v, Reaches builder resolver request s compiled v ∧
      ∃ session, (cleanUp builder.host compiled.session).run v = ((session, t) : Session × σ) ∧
        report = ⟨compiled.succeeded, request.isBatch, session⟩ := by
  rw [run]
  cases hsources : request.sources.isEmpty with
  | true =>
    refine iff_of_false (fun h => ?_) ?_
    · rw [if_pos rfl, ends_step_bind_iff] at h
      obtain ⟨_, _, hthrow, -⟩ := h
      cases (ends_pure_iff.mp hthrow).1
    · rintro ⟨compiled, v, hreaches, -⟩
      cases hsources.symm.trans hreaches.sources
  | false =>
    rw [if_neg Bool.false_ne_true, ends_step_bind_iff]
    refine exists_congr fun compiled => ?_
    simp only [ends_passes_iff, ends_report_iff]
    constructor
    · rintro ⟨u, hcompile, v, hpassed, hreport⟩
      exact ⟨v, ⟨hsources, u, hcompile, hpassed⟩, hreport⟩
    · rintro ⟨v, ⟨-, u, hcompile, hpassed⟩, hreport⟩
      exact ⟨u, hcompile, v, hpassed, hreport⟩

/-- How a run cleans up that visited some targets and came to its end in the state `v`. -/
structure CleansUp (builder : Builder (StateM σ)) (request : Request) (visits : List (Visit σ))
    (session : Session) (v : σ) (outcomes : List (Path × Except FileError Unit)) (t : σ) : Prop where
  /-- The temporary files are those that the visits left. -/
  temporary : ListsOnce session.temporaryFiles
    {p | ∃ visit ∈ visits, Target.IsLeftover builder request visit.device visit.start p}
  /-- They are removed one after the other. -/
  sweep : Sweep builder.host v outcomes t
  files : outcomes.map Prod.fst = session.temporaryFiles
  /-- On a file system none is left that could be removed, and no other file is removed. -/
  swept : ∀ (L : Type) (place? : σ → Path → Option L), builder.host.Removes place? →
    ∃ emptied, Swept place? v outcomes t emptied

/-- **A run that comes to its end removes what its visits left, and nothing else.** -/
theorem exists_cleansUp (h : Reaches builder resolver request s compiled v) :
    ∃ resolution visits u outcomes t, Course builder resolver request s resolution visits u ∧
      CleansUp builder request visits compiled.session v outcomes t ∧
      Ends (run builder resolver request).run s (.ok ⟨compiled.succeeded, request.isBatch,
        compiled.session.count { removed := removals outcomes }⟩) t := by
  obtain ⟨u, hcompile, -⟩ := h.compiled
  obtain ⟨resolution, visits, hcourse, rfl⟩ := course_of_ends hcompile
  obtain ⟨outcomes, t, hsweep, hfiles, hrun⟩ :=
    exists_sweep builder.host (gathered resolution visits).session.temporaryFiles v
  refine ⟨resolution, visits, u, outcomes, t, hcourse, ?_, ends_run_iff.mpr ⟨_, v, h, _, ?_, rfl⟩⟩
  · have hlists := (gathered resolution visits).session.listsOnce_temporaryFiles
    simp only [hcourse.temporary_iff] at hlists
    exact ⟨hlists, hsweep, hfiles, fun _ _ hremoves => hsweep.exists_swept hremoves⟩
  · rw [cleanUp, StateT.run_bind, hrun]
    rfl

/-- A request for the tables of one target, whose listings are temporary. -/
def oneTable : Request where
  devices := ["gfx900".toList]
  sources := [Path.ofText "k.cl".toList]
  outputs := { table := true }

/-- A world in which the temporary listing of the second kernel cannot be written. -/
def blockedListing : World where
  disk := Disk.fresh.furnish (Path.ofText "/tmp/isaforge_lc_isa-1-gfx900-vmul.isa".toList) .directory

/-- The only target fails after one of its listings is written: that one and the binary are
removed. -/
theorem exists_cleansUp_blockedListing :
    ∃ compiled v,
      Reaches (rehearsed Target.twoKernels) twoTargets oneTable blockedListing compiled v ∧
      ∃ resolution visits u outcomes t,
        Course (rehearsed Target.twoKernels) twoTargets oneTable blockedListing resolution visits u ∧
        CleansUp (rehearsed Target.twoKernels) oneTable visits compiled.session v outcomes t ∧
        Ends (run (rehearsed Target.twoKernels) twoTargets oneTable).run blockedListing
          (.ok ⟨compiled.succeeded, oneTable.isBatch, compiled.session.count
            { removed := removals outcomes }⟩) t ∧
        (compiled.session.count { removed := removals outcomes }).tally.removed = 2 ∧
        ∃ emptied, Swept (fun world p => world.disk.place? p) v outcomes t emptied := by
  obtain ⟨result, _, h, hremoved⟩ := exists_ends_of_givesSome
    (x := (run (rehearsed Target.twoKernels) twoTargets oneTable).run) (s := blockedListing)
    (p := fun result => result.toOption.any fun report => report.session.tally.removed = 2)
    (by decide +kernel)
  obtain ⟨report, hreport, hcount⟩ := (Option.any_eq_true _ _).mp hremoved
  obtain rfl : result = .ok report := by
    cases result with
    | error fault => cases hreport
    | ok report' => exact congrArg _ (Option.some.inj hreport)
  obtain ⟨compiled, v, hreaches, -⟩ := ends_run_iff.mp h
  obtain ⟨resolution, visits, u, outcomes, t, hcourse, hcleans, hends⟩ := exists_cleansUp hreaches
  obtain rfl := Except.ok.inj (h.unique hends).1
  exact ⟨compiled, v, hreaches, resolution, visits, u, outcomes, t, hcourse, hcleans, hends,
    of_decide_eq_true hcount, hcleans.swept _ _ World.removes_host⟩

end Run

end KernelIsa
