import KernelIsa.Bench.Programs
import KernelIsa.Proofs.Build.Presence
import KernelIsa.Tool.Suite

/-!
# Proofs/Tool/FreshReports — when a report is that of the analysis that asked for it

An analysis launches a program (`Task.launched`) and, if the program ends well, asks no more than
whether a report is there (`Task.answered_eq_ok_iff`); nothing was removed before.  So an analysis
tells whether the program wrote the report (`Task.TellsFresh`) exactly where no older report can pass
for it (`Task.tellsFresh_iff`), and a program that writes nothing passes with the report of an
earlier run (`Task.not_tellsFresh_silentProgram`).

The views are of versions: one that tells a file from the same file written again gives the
strongest reading.
-/

namespace KernelIsa.Analyzer

/-- What an analyzer can find out. -/
inductive Analysis
  | liveRegisters (kind : Registers.RegisterClass)
  | graph (granularity : Granularity)
  deriving DecidableEq, Repr

/-- What is asked of an analyzer. -/
structure Task where
  analysis : Analysis
  listing : Path
  device : Text
  report : Path

namespace Task

/-- Puts a task to an analyzer. -/
def run {m : Type → Type} (analyzer : Analyzer m) (task : Task) : m (Except Fault Unit) :=
  match task.analysis with
  | .liveRegisters kind => analyzer.liveRegisters task.listing task.device kind task.report
  | .graph granularity => analyzer.graph task.listing task.device granularity task.report

/-- The arguments of the program for a task. -/
def arguments (task : Task) : List Bytes :=
  let command := match task.analysis with
    | .liveRegisters kind => liveCommand kind
    | .graph granularity => graphCommand granularity
  Analyzer.arguments command task.device task.listing task.report

variable {σ V : Type} {files : Files (StateM σ)} {at? : σ → Path → Option V} {task : Task} {s : σ}
  {launcher : Launcher (StateM σ)} {echo : Bool} {program : Path}

/-! ## The launch of the program -/

/-- The state in which the program is launched, behind its command line if that is shown. -/
def begun (launcher : Launcher (StateM σ)) (echo : Bool) (program : Path) (task : Task) (s : σ) : σ :=
  if echo then
    ((launcher.print (Launcher.commandLine program task.arguments)).run s : Unit × σ).2
  else s

/-- The launch of the program for a task: how the program ended, and the state that it leaves. -/
def launched (launcher : Launcher (StateM σ)) (echo : Bool) (program : Path) (task : Task) (s : σ) :
    Except FileError Finished × σ :=
  (launcher.launch program task.arguments).run (task.begun launcher echo program s)

/-- Whether the program ended well. -/
def endsWell (launcher : Launcher (StateM σ)) (echo : Bool) (program : Path) (task : Task) (s : σ) :
    Bool :=
  (task.launched launcher echo program s).1.toOption.any fun finished => finished.ending.isSuccess

/-- The answer to a task: whether it went well, and the state that it leaves. -/
def answered (launcher : Launcher (StateM σ)) (files : Files (StateM σ)) (echo : Bool)
    (program : Path) (task : Task) (s : σ) : Except Fault Unit × σ :=
  (task.run (ofProgram launcher files echo program)).run s

/-- The question whether the report of a task is there. -/
def asked (files : Files (StateM σ)) (task : Task) (s : σ) : Bool × σ :=
  (files.isPresent task.report).run s

/-- Running the program is launching it, behind its command line. -/
theorem run_launcher : ((launcher.run echo program task.arguments).run s : Except Fault ToolOutput × σ)
    = ((match (task.launched launcher echo program s).1 with
        | .error error => .error (.launch program.display error)
        | .ok finished => .ok finished.output), (task.launched launcher echo program s).2) := by
  have hlaunch (u : σ) : ((do
      match ← launcher.launch program task.arguments with
      | .error error => return .error (.launch program.display error)
      | .ok finished => return .ok finished.output : StateM σ (Except Fault ToolOutput)).run u
        : Except Fault ToolOutput × σ) =
      ((match ((launcher.launch program task.arguments).run u : _ × σ).1 with
        | .error error => .error (.launch program.display error)
        | .ok finished => .ok finished.output),
        ((launcher.launch program task.arguments).run u : _ × σ).2) := by
    rw [StateT.run_bind]
    generalize (launcher.launch program task.arguments).run u = p
    obtain ⟨result, t⟩ := p
    cases result <;> rfl
  rw [Launcher.run, launched, begun]
  cases echo with
  | true => exact hlaunch _
  | false => exact hlaunch s

/-- An analysis ends with the question whether a report is there, if its program ended well. -/
theorem answered_eq : task.answered launcher files echo program s =
    match task.launched launcher echo program s with
    | (.error error, t) => (.error (.launch program.display error), t)
    | (.ok finished, t) => if finished.ending.isSuccess then
        (if (task.asked files t).1 then .ok () else .error (.noOutput program.display task.report),
          (task.asked files t).2)
      else (.error (.toolFailed program.display finished.ending.status
        (Utf8.decodeLossy finished.stderr)), t) := by
  obtain ⟨command, harguments, hanalyze⟩ : ∃ command,
      task.arguments = Analyzer.arguments command task.device task.listing task.report ∧
      task.answered launcher files echo program s = (analyze launcher files echo program command
        task.device task.listing task.report).run s := by
    rw [answered, run, arguments]
    cases task.analysis <;> exact ⟨_, rfl, rfl⟩
  have hask (t : σ) : ((do
      if ← files.isPresent task.report then return .ok ()
      else return .error (.noOutput program.display task.report) :
        StateM σ (Except Fault Unit)).run t : Except Fault Unit × σ) =
      (if (task.asked files t).1 then .ok () else .error (.noOutput program.display task.report),
        (task.asked files t).2) := by
    rw [StateT.run_bind, asked]
    generalize (files.isPresent task.report).run t = p
    obtain ⟨isPresent, u⟩ := p
    cases isPresent <;> rfl
  rw [hanalyze, analyze, ← harguments, StateT.run_bind, run_launcher]
  generalize task.launched launcher echo program s = p
  obtain ⟨result, t⟩ := p
  cases result with
  | error error => rfl
  | ok finished =>
    simp only [Except.bind, ToolOutput.check, Finished.output]
    cases finished.ending.isSuccess with
    | false => rfl
    | true => exact hask t

/-- Where the program ended well, the presence of the report decides. -/
theorem answered_of_endsWell (h : task.endsWell launcher echo program s) :
    task.answered launcher files echo program s =
      (if (task.asked files (task.launched launcher echo program s).2).1 then .ok ()
        else .error (.noOutput program.display task.report),
        (task.asked files (task.launched launcher echo program s).2).2) := by
  obtain ⟨finished, hfinished, hsuccess⟩ := (Option.any_eq_true _ _).mp h
  rw [answered_eq]
  generalize task.launched launcher echo program s = p at hfinished ⊢
  obtain ⟨result, t⟩ := p
  cases result with
  | error error => cases hfinished
  | ok finished' =>
    obtain rfl := Option.some.inj hfinished
    exact if_pos hsuccess

/-- Where the program did not end well, the analysis fails and leaves what the program left. -/
theorem answered_of_not_endsWell (files : Files (StateM σ))
    (h : ¬ task.endsWell launcher echo program s) :
    ∃ fault, task.answered launcher files echo program s
      = (.error fault, (task.launched launcher echo program s).2) := by
  rw [endsWell] at h
  rw [answered_eq]
  generalize task.launched launcher echo program s = p at h ⊢
  obtain ⟨result, t⟩ := p
  cases result with
  | error error => exact ⟨_, rfl⟩
  | ok finished => exact ⟨_, if_neg h⟩

/-- **The analysis goes well exactly if its program ends well and its report is there then.** -/
theorem answered_eq_ok_iff : (task.answered launcher files echo program s).1 = .ok () ↔
    task.endsWell launcher echo program s ∧
      (task.asked files (task.launched launcher echo program s).2).1 := by
  by_cases hends : task.endsWell launcher echo program s
  · rw [answered_of_endsWell hends]
    cases (task.asked files (task.launched launcher echo program s).2).1 with
    | false => exact iff_of_false (fun h => nomatch h) fun h => Bool.false_ne_true h.2
    | true => exact iff_of_true rfl ⟨hends, rfl⟩
  · obtain ⟨fault, hfault⟩ := answered_of_not_endsWell files hends
    rw [hfault]
    exact iff_of_false (fun h => nomatch h) fun h => hends h.1

/-! ## Fresh reports -/

/-- Between two states the version that lies at a path was written. -/
def Wrote (at? : σ → Path → Option V) (p : Path) (s t : σ) : Prop :=
  ∃ v, at? t p = some v ∧ at? s p ≠ some v

/-- The answer to a task tells whether the program wrote the report. -/
structure TellsFresh (at? : σ → Path → Option V) (launcher : Launcher (StateM σ))
    (files : Files (StateM σ)) (echo : Bool) (program : Path) (task : Task) (s : σ) : Prop where
  /-- If all went well, the program wrote the report. -/
  wrote : (task.answered launcher files echo program s).1 = .ok () →
    Wrote at? task.report (task.begun launcher echo program s)
      (task.launched launcher echo program s).2
  /-- If the program ended well and did not write the report, that is the fault. -/
  missing : task.endsWell launcher echo program s →
    ¬ Wrote at? task.report (task.begun launcher echo program s)
      (task.launched launcher echo program s).2 →
    (task.answered launcher files echo program s).1
      = .error (.noOutput program.display task.report)

/-- **The answer tells whether the program wrote the report, unless the program ended well and an
older report still lies where it should be.** -/
theorem tellsFresh_iff (hshows : files.Shows at?) (task : Task) (s : σ) :
    task.TellsFresh at? launcher files echo program s ↔
      ¬ (task.endsWell launcher echo program s ∧
        ∃ v, at? (task.begun launcher echo program s) task.report = some v ∧
          at? (task.launched launcher echo program s).2 task.report = some v) := by
  have hpresent : (task.asked files (task.launched launcher echo program s).2).1
      = (at? (task.launched launcher echo program s).2 task.report).isSome :=
    (hshows.isPresent (Prod.ext rfl rfl)).1
  constructor
  · rintro hfresh ⟨hends, v, hbefore, hafter⟩
    have hthere : (task.asked files (task.launched launcher echo program s).2).1 = true := by
      rw [hpresent, hafter, Option.isSome_some]
    obtain ⟨w, hw, hnew⟩ := hfresh.wrote (answered_eq_ok_iff.mpr ⟨hends, hthere⟩)
    exact hnew (hbefore.trans (hafter.symm.trans hw))
  · intro hnone
    have hwrote (hends : task.endsWell launcher echo program s) {v : V}
        (hafter : at? (task.launched launcher echo program s).2 task.report = some v) :
        Wrote at? task.report (task.begun launcher echo program s)
          (task.launched launcher echo program s).2 :=
      ⟨v, hafter, fun hbefore => hnone ⟨hends, v, hbefore, hafter⟩⟩
    refine ⟨fun hok => ?_, fun hends hunwritten => ?_⟩
    · obtain ⟨hends, hthere⟩ := answered_eq_ok_iff.mp hok
      rw [hpresent] at hthere
      obtain ⟨v, hafter⟩ := Option.isSome_iff_exists.mp hthere
      exact hwrote hends hafter
    · rw [answered_of_endsWell hends, hpresent]
      cases hafter : at? (task.launched launcher echo program s).2 task.report with
      | none => rfl
      | some v => exact absurd (hwrote hends hafter) hunwritten

/-- The analyzer of the samples. -/
def sampleProgram : Path := Path.ofText "bin/analyzer".toList

/-- A task for live registers. -/
def sampleTask : Task where
  analysis := .liveRegisters .vector
  listing := Path.ofText "k.isa".toList
  device := "gfx906".toList
  report := Path.ofText "out/l.txt".toList

/-- A world with the report of an earlier run, in which the analyzer writes a content or nothing. -/
def reportedWorld (writes : Option Bytes) : World where
  disk := (Disk.fresh.furnish sampleProgram
      (.program { name := "analyzer".toList, outlet := .atEnd, writes := writes })).furnish
    sampleTask.report (.file (Utf8.encode "old report".toList))

/-- A program that writes another report has its answer taken for what it is. -/
theorem tellsFresh_iff_writingProgram :
    sampleTask.TellsFresh World.at? Programs.launcher World.host.files false sampleProgram
      (reportedWorld (some (Utf8.encode "new report".toList))) := by
  refine (tellsFresh_iff World.clears_host.toShows sampleTask _).mpr ?_
  rintro ⟨-, v, hbefore, hafter⟩
  have hchanged : (sampleTask.begun Programs.launcher false sampleProgram
        (reportedWorld (some (Utf8.encode "new report".toList)))).at? sampleTask.report
      ≠ (sampleTask.launched Programs.launcher false sampleProgram
        (reportedWorld (some (Utf8.encode "new report".toList)))).2.at? sampleTask.report := by
    decide +kernel
  exact hchanged (hbefore.trans hafter.symm)

/-- **A program that writes nothing passes with the report of an earlier run.** -/
theorem not_tellsFresh_silentProgram :
    (sampleTask.answered Programs.launcher World.host.files false sampleProgram
      (reportedWorld none)).1 = .ok () ∧
    (sampleTask.answered Programs.launcher World.host.files false sampleProgram
      (reportedWorld none)).2.disk = (reportedWorld none).disk ∧
    ¬ sampleTask.TellsFresh World.at? Programs.launcher World.host.files false sampleProgram
      (reportedWorld none) := by
  have hok : (sampleTask.answered Programs.launcher World.host.files false sampleProgram
      (reportedWorld none)).1 = .ok () :=
    answered_eq_ok_iff.mpr (by decide +kernel)
  refine ⟨hok, by decide +kernel, fun hfresh => ?_⟩
  obtain ⟨v, hafter, hnew⟩ := hfresh.wrote hok
  have hsame : (sampleTask.begun Programs.launcher false sampleProgram
        (reportedWorld none)).at? sampleTask.report
      = (sampleTask.launched Programs.launcher false sampleProgram
        (reportedWorld none)).2.at? sampleTask.report := by decide +kernel
  exact hnew (hsame.trans hafter)

end Task

end KernelIsa.Analyzer
