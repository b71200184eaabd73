import KernelIsa.Proofs.Build.PassFiles
import KernelIsa.Proofs.Tool.FreshReports

/-!
# Proofs/Tool/ServingPrograms — which programs serve the passes

Of an analyzer the passes need that it changes its reports only and that a report of which it tells
is the right one (`Analyzer.Reports`).  An analyzer that runs a program is such a one exactly if the
program performs its tasks (`Analyzer.reports_ofProgram_iff`): whatever the program does, it leaves
everything but the report alone, and if it ends well, what lies at the report's path is the report.
It may still fail, and it may end well without a report.

With `Clang.serves_services_iff` the services of a clang installation serve as soon as the program
performs; sizes of code are those that the binaries tell (`CodeObject.codeSize_ok`).
-/

namespace KernelIsa

variable {σ L : Type} {place : Path → L} {content : σ → L → Option Bytes} {tools : PassTools}
  {host : Host (StateM σ)} {services : Services (StateM σ)} {files : Files (StateM σ)}
  {launcher : Launcher (StateM σ)} {echo : Bool} {program : Path} {s t : σ}

/-! ## What the passes need of an analyzer -/

/-- The report on a listing that tools make for a task. -/
def PassTools.report (tools : PassTools) (task : Analyzer.Task) (listing : Option Bytes) :
    Option Bytes :=
  match task.analysis with
  | .liveRegisters kind => tools.liveRegisters listing task.device kind
  | .graph granularity => tools.graph listing task.device granularity

namespace Analyzer

/-- An analyzer changes the files for its reports only, and a report of which it tells is the one
that the tools make of the listing. -/
structure Reports (place : Path → L) (content : σ → L → Option Bytes) (tools : PassTools)
    (analyzer : Analyzer (StateM σ)) : Prop where
  kept : ∀ task : Task, Keeps content {place task.report} (task.run analyzer)
  made : ∀ (task : Task) s t, (task.run analyzer).run s = (.ok (), t) →
    content t (place task.report) = tools.report task (content s (place task.listing))

/-- **Services serve the passes exactly if they do so without their analyzer, and the analyzer makes
the reports of the tools.** -/
theorem serves_iff_reports : Serves place content tools host services ↔
    Serves place content tools host { services with analyzer := none } ∧
      ∀ analyzer ∈ services.analyzer, analyzer.Reports place content tools := by
  constructor
  · intro h
    refine ⟨?_, fun analyzer hanalyzer => ⟨?_, ?_⟩⟩
    · exact { h with
        liveRegisters := fun _ hnone => nomatch hnone
        liveRegisters_ok := fun _ hnone => nomatch hnone
        graph := fun _ hnone => nomatch hnone
        graph_ok := fun _ hnone => nomatch hnone }
    · rintro ⟨kind | granularity, listing, device, report⟩
      · exact h.liveRegisters analyzer hanalyzer listing device kind report
      · exact h.graph analyzer hanalyzer listing device granularity report
    · rintro ⟨kind | granularity, listing, device, report⟩ s t hrun
      · exact h.liveRegisters_ok analyzer hanalyzer listing device kind report s t hrun
      · exact h.graph_ok analyzer hanalyzer listing device granularity report s t hrun
  · rintro ⟨h, hreports⟩
    exact { h with
      liveRegisters := fun analyzer hanalyzer listing device kind report =>
        (hreports analyzer hanalyzer).kept ⟨.liveRegisters kind, listing, device, report⟩
      liveRegisters_ok := fun analyzer hanalyzer listing device kind report =>
        (hreports analyzer hanalyzer).made ⟨.liveRegisters kind, listing, device, report⟩
      graph := fun analyzer hanalyzer listing device granularity report =>
        (hreports analyzer hanalyzer).kept ⟨.graph granularity, listing, device, report⟩
      graph_ok := fun analyzer hanalyzer listing device granularity report =>
        (hreports analyzer hanalyzer).made ⟨.graph granularity, listing, device, report⟩ }

/-! ## Programs -/

/-- A program changes nothing but the report, however it ends; and if it ends well, what lies at the
report's path is the report that the tools make of the listing. -/
structure Performs (place : Path → L) (content : σ → L → Option Bytes) (tools : PassTools)
    (launcher : Launcher (StateM σ)) (files : Files (StateM σ)) (echo : Bool) (program : Path) :
    Prop where
  kept : ∀ (task : Task) s, ∀ l ≠ place task.report,
    content (task.launched launcher echo program s).2 l = content s l
  made : ∀ (task : Task) s, task.endsWell launcher echo program s →
    (task.asked files (task.launched launcher echo program s).2).1 →
    content (task.launched launcher echo program s).2 (place task.report)
      = tools.report task (content s (place task.listing))

/-- An analysis leaves the contents that its program leaves. -/
theorem Task.content_answered {task : Task} (hasks : ∀ p, Keeps content ∅ (files.isPresent p))
    (l : L) : content (task.answered launcher files echo program s).2 l
      = content (task.launched launcher echo program s).2 l := by
  by_cases hends : task.endsWell launcher echo program s
  · rw [Task.answered_of_endsWell hends]
    exact hasks task.report _ l (Set.notMem_empty l)
  · obtain ⟨fault, hfault⟩ := Task.answered_of_not_endsWell files hends
    rw [hfault]

/-- **The analyzer that runs a program makes the reports of the tools exactly if the program
performs its tasks.** -/
theorem reports_ofProgram_iff (hasks : ∀ p, Keeps content ∅ (files.isPresent p)) :
    (ofProgram launcher files echo program).Reports place content tools ↔
      Performs place content tools launcher files echo program := by
  constructor
  · refine fun h => ⟨fun task s l hl => ?_, fun task s hends hthere => ?_⟩
    · exact (Task.content_answered hasks l).symm.trans (h.kept task s l hl)
    · have hok := Task.answered_eq_ok_iff.mpr ⟨hends, hthere⟩
      rw [← Task.content_answered hasks]
      exact h.made task s _ (Prod.ext hok rfl)
  · refine fun h => ⟨fun task s l hl => ?_, fun task s t hrun => ?_⟩
    · exact (Task.content_answered hasks l).trans (h.kept task s l hl)
    · have hanswered : task.answered launcher files echo program s = (.ok (), t) := hrun
      obtain ⟨hends, hthere⟩ := Task.answered_eq_ok_iff.mp (congrArg Prod.fst hanswered)
      rw [← h.made task s hends hthere, ← Task.content_answered hasks, hanswered]

end Analyzer

/-- **The services of a clang installation serve the passes with a program as analyzer exactly if
they do so without one, and the program performs its tasks.** -/
theorem Clang.serves_services_iff {clang : Clang}
    (hasks : ∀ p, Keeps content ∅ (host.files.isPresent p)) :
    Serves place content tools host (clang.services launcher host.files (some program)) ↔
      Serves place content tools host (clang.services launcher host.files none) ∧
        Analyzer.Performs place content tools launcher host.files clang.echo program := by
  rw [Analyzer.serves_iff_reports, ← Analyzer.reports_ofProgram_iff hasks]
  refine and_congr_right fun _ => ⟨fun h => h _ rfl, fun h analyzer hanalyzer => ?_⟩
  rw [← Option.some.inj hanalyzer]
  exact h

/-! ## The size of code -/

namespace CodeObject

/-- The code size of a kernel that a binary tells. -/
def sizeIn (binary : Option Bytes) (kernel : Text) : Option Nat :=
  binary.bind fun bytes =>
    (Elf.symbols bytes).toOption.bind fun symbols => Symbol.codeSize? symbols kernel

variable {binary : Path} {kernel : Text} {size : Option Nat}

theorem keeps_codeSize (hread : Keeps content ∅ (files.read binary)) :
    Keeps content ∅ (codeSize files binary kernel) := by
  refine Keeps.bind (Keeps.bind hread fun answer => ?_) fun _ => Keeps.pure _
  cases answer <;> exact Keeps.pure _

/-- **A code size that is told is that of the bytes that are read.** -/
theorem codeSize_ok {held : Option Bytes}
    (hread : ∀ bytes u, (files.read binary).run s = (.ok bytes, u) → held = some bytes)
    (h : (codeSize files binary kernel).run s = (.ok size, t)) : size = sizeIn held kernel := by
  rw [codeSize, symbols, StateT.run_bind, StateT.run_bind] at h
  rcases hanswer : (files.read binary).run s with ⟨answer, u⟩
  rw [hanswer] at h
  cases answer with
  | error error => cases (Prod.mk.inj h).1
  | ok bytes =>
    have hsize : (symbolsIn binary bytes).map (fun symbols => Symbol.codeSize? symbols kernel)
        = .ok size := (Prod.mk.inj h).1
    rw [hread bytes u hanswer, sizeIn, Option.bind_some]
    rw [symbolsIn] at hsize
    cases hsymbols : Elf.symbols bytes with
    | error defect =>
      rw [hsymbols] at hsize
      cases hsize
    | ok symbols =>
      rw [hsymbols] at hsize
      exact (Except.ok.inj hsize).symm

end CodeObject

end KernelIsa
