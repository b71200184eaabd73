import KernelIsa.Proofs.Artifact.SessionViews
import KernelIsa.Proofs.Build.PassAttempts
import Mathlib.Data.List.Flatten
import Mathlib.Data.List.Nodup
import Mathlib.Data.Set.Image
import Mathlib.Data.Set.Insert

/-!
# Proofs/Build/PassFiles — the files that the passes leave

A host and its services serve the passes if every operation that goes well does what it is there
for, and one that fails touches nothing but the file it was to write (`Serves`); which ones fail is
left open.  An attempt that succeeds then leaves files that are a function of those it read
(`Attempt.made`, `Serves.made_of_ends`).  If the files of all attempts are different, attempts do
not disturb each other (`Settles.append`), so that what a successful attempt leaves stays until the
end, whatever became of the others (`Serves.settles_ranAll`).
-/

namespace KernelIsa

variable {σ L C α β : Type} {content : σ → L → C} {written written' : Set L} {l : L} {s t : σ}

/-! ## Actions that change some places only -/

/-- An action leaves all places but some as they are. -/
def Keeps (content : σ → L → C) (written : Set L) (x : StateM σ α) : Prop :=
  ∀ s, ∀ l ∉ written, content (x.run s : α × σ).2 l = content s l

namespace Keeps

theorem pure (a : α) : Keeps content written (pure a : StateM σ α) := fun _ _ _ => rfl

theorem bind {x : StateM σ α} {f : α → StateM σ β} (hx : Keeps content written x)
    (hf : ∀ a, Keeps content written (f a)) : Keeps content written (x >>= f) :=
  fun s l hl => (hf _ _ l hl).trans (hx s l hl)

theorem mono {x : StateM σ α} (hx : Keeps content written x) (h : written ⊆ written') :
    Keeps content written' x := fun s l hl => hx s l fun hmem => hl (h hmem)

theorem step_ask {y : StateM σ (Except Fault α)} (h : Keeps content written y) :
    Keeps content written (Step.ask y).run.run :=
  h.bind (f := fun a => Pure.pure (Except.ok a)) fun _ => Keeps.pure _

theorem step_bind {x : Step (StateM σ) α} {f : α → Step (StateM σ) β}
    (hx : Keeps content written x.run.run) (hf : ∀ a, Keeps content written (f a).run.run) :
    Keeps content written (x >>= f).run.run := by
  rw [ExceptT.run_bind, ExceptT.run_bind]
  refine hx.bind fun answer => ?_
  obtain _ | _ | a := answer
  · exact Keeps.pure _
  · exact Keeps.pure _
  · exact hf a

theorem step_pure (a : α) : Keeps content written (Pure.pure a : Step (StateM σ) α).run.run :=
  Keeps.pure _

theorem step_ofExcept (result : Except Fault α) :
    Keeps content written (Step.ofExcept result : Step (StateM σ) α).run.run := Keeps.pure _

theorem step_ofChecked (result : Except Overflow α) :
    Keeps content written (Step.ofChecked result : Step (StateM σ) α).run.run := by
  cases result with
  | ok a => exact Keeps.pure _
  | error overflow => exact Keeps.pure _

/-- What an action leaves alone is as it was where it ends. -/
theorem eq_of_ends {x : Checked (StateM σ) α} {a : α} (hx : Keeps content written x.run)
    (h : Ends x s a t) (hl : l ∉ written) : content t l = content s l := by
  have hkept := hx s l hl
  rw [h] at hkept
  exact hkept

/-- What an action leaves alone is as it was afterwards. -/
theorem eq_of_run {x : StateM σ α} {a : α} (hx : Keeps content written x)
    (h : (x.run s : α × σ) = (a, t)) (hl : l ∉ written) : content t l = content s l := by
  have hkept := hx s l hl
  rw [h] at hkept
  exact hkept

end Keeps

/-! ## What serves the passes -/

/-- What the tools of the passes make of the contents of files. -/
structure PassTools where
  codeSize : (binary : Option Bytes) → (kernel : Text) → Option Nat
  notes : (binary : Option Bytes) → Text
  liveRegisters : (listing : Option Bytes) → (device : Text) → Registers.RegisterClass →
    Option Bytes
  graph : (listing : Option Bytes) → (device : Text) → Granularity → Option Bytes

/-- Any operation may fail, and then changes nothing but the file that it was to write; one that
goes well reads and writes the contents of files as it should.  Two paths with one place name the
same file. -/
structure Serves (place : Path → L) (content : σ → L → Option Bytes) (tools : PassTools)
    (host : Host (StateM σ)) (services : Services (StateM σ)) : Prop where
  tell : ∀ notice, Keeps content ∅ (host.tell notice)
  read : ∀ p, Keeps content ∅ (host.files.read p)
  read_ok : ∀ p s bytes t, (host.files.read p).run s = (.ok bytes, t) →
    content s (place p) = some bytes
  write : ∀ p bytes, Keeps content {place p} (host.files.write p bytes)
  write_ok : ∀ p bytes s t, (host.files.write p bytes).run s = (.ok (), t) →
    content t (place p) = some bytes
  codeSize : ∀ binary kernel, Keeps content ∅ (services.codeSize binary kernel)
  codeSize_ok : ∀ binary kernel s size t,
    (services.codeSize binary kernel).run s = (.ok size, t) →
      size = tools.codeSize (content s (place binary)) kernel
  notes : ∀ binary, Keeps content ∅ (services.notes binary)
  notes_ok : ∀ binary s text t, (services.notes binary).run s = (.ok text, t) →
    text = tools.notes (content s (place binary))
  liveRegisters : ∀ analyzer ∈ services.analyzer, ∀ listing device kind report,
    Keeps content {place report} (analyzer.liveRegisters listing device kind report)
  liveRegisters_ok : ∀ analyzer ∈ services.analyzer, ∀ listing device kind report s t,
    (analyzer.liveRegisters listing device kind report).run s = (.ok (), t) →
      content t (place report) = tools.liveRegisters (content s (place listing)) device kind
  graph : ∀ analyzer ∈ services.analyzer, ∀ listing device granularity report,
    Keeps content {place report} (analyzer.graph listing device granularity report)
  graph_ok : ∀ analyzer ∈ services.analyzer, ∀ listing device granularity report s t,
    (analyzer.graph listing device granularity report).run s = (.ok (), t) →
      content t (place report) = tools.graph (content s (place listing)) device granularity

/-! ## The files of an attempt -/

namespace Attempt

/-- The files that an attempt leaves if it succeeds, made of those that it sees. -/
def made (tools : PassTools) (request : Request) (session : Session)
    (seen : Path → Option Bytes) : Attempt → List (Path × Option Bytes)
  | .table k =>
    if k.record.listingIsTemporary then []
    else [(k.listing.withExtension "csv".toList,
      ((seen k.listing).bind Utf8.decode?).map fun fragment => Utf8.encode (Row.table fragment))]
  | .statistic base k =>
    let codeSize := k.record.binary.bind fun binary => tools.codeSize (seen binary) k.kernel
    [(outputName base "csv".toList k.device (some k.kernel),
      ((seen k.listing).bind Utf8.decode?).bind fun fragment =>
        (Statistics.table k.device k.kernel codeSize fragment).toOption.map Utf8.encode)]
  | .liveRegisters kind base k =>
    [(outputName base "txt".toList k.device (some k.kernel),
      tools.liveRegisters (seen k.listing) k.device kind)]
  | .graphs k =>
    let drawn := fun (base : Option Path) granularity => (base.map fun base =>
      (outputName base "dot".toList k.device (some k.kernel),
        tools.graph (seen k.listing) k.device granularity)).toList
    drawn request.outputs.blockGraph .block ++ drawn request.outputs.instructionGraph .instruction
  | .note base binary =>
    [(outputName base "txt".toList binary.1 none,
      some (Utf8.encode (tools.notes (seen binary.2))))]
  | .document path =>
    [(path, (Document.write request.sources session).toOption.map Utf8.encode)]

/-- The files that an attempt leaves are those that it is to write. -/
theorem map_fst_made (tools : PassTools) (request : Request) (session : Session)
    (seen : Path → Option Bytes) (a : Attempt) :
    (a.made tools request session seen).map Prod.fst = a.outputs request.outputs := by
  cases a with
  | table k =>
    rw [made, outputs]
    split
    · rfl
    · rw [List.map_singleton]
  | graphs k =>
    rw [made, outputs]
    cases request.outputs.blockGraph <;> cases request.outputs.instructionGraph <;> rfl
  | _ => rfl

/-- What an attempt leaves depends on the files that it reads. -/
theorem made_congr {tools : PassTools} {request : Request} {session : Session}
    {seen seen' : Path → Option Bytes} {a : Attempt} (h : ∀ p ∈ a.inputs, seen p = seen' p) :
    a.made tools request session seen = a.made tools request session seen' := by
  cases a with
  | table k => rw [made, made, h k.listing (List.mem_singleton_self _)]
  | statistic base k =>
    have hsize : (k.record.binary.bind fun binary => tools.codeSize (seen binary) k.kernel)
        = k.record.binary.bind fun binary => tools.codeSize (seen' binary) k.kernel := by
      refine Option.bind_congr fun binary hbinary => ?_
      rw [h binary (List.mem_cons_of_mem _ (Option.mem_toList.mpr hbinary))]
    rw [made, made, h k.listing List.mem_cons_self, hsize]
  | liveRegisters kind base k => rw [made, made, h k.listing (List.mem_singleton_self _)]
  | graphs k => rw [made, made, h k.listing (List.mem_singleton_self _)]
  | note base binary => rw [made, made, h binary.2 (List.mem_singleton_self _)]
  | document path => rfl

theorem mem_outputs_graphs {k : Session.KernelListing} {outputs : Outputs} {base : Path}
    (h : base ∈ outputs.blockGraph ∨ base ∈ outputs.instructionGraph) :
    outputName base "dot".toList k.device (some k.kernel) ∈ (Attempt.graphs k).outputs outputs := by
  refine List.mem_map.mpr ⟨base, ?_, rfl⟩
  rwa [List.mem_append, Option.mem_toList, Option.mem_toList]

/-- The files of some attempts are different, and none of them is one that an attempt reads. -/
structure AllApart (place : Path → L) (outputs : Outputs) (attempts : List Attempt) : Prop where
  distinct : ((attempts.flatMap (Attempt.outputs outputs)).map place).Nodup
  unread : ∀ a ∈ attempts, ∀ p ∈ a.outputs outputs, ∀ b ∈ attempts, ∀ q ∈ b.inputs, place p ≠ place q

theorem AllApart.sublist {place : Path → L} {outputs : Outputs} {attempts attempts' : List Attempt}
    (h : AllApart place outputs attempts') (hsublist : attempts.Sublist attempts') :
    AllApart place outputs attempts where
  distinct := h.distinct.sublist ((hsublist.flatMap _).map _)
  unread a ha p hp b hb q hq := h.unread a (hsublist.subset ha) p hp b (hsublist.subset hb) q hq

/-- Files of attempts one behind the other are different. -/
theorem AllApart.ne_of_append {place : Path → L} {outputs : Outputs} {attempts attempts' : List Attempt}
    {a b : Attempt} {p q : Path} (h : AllApart place outputs (attempts ++ attempts'))
    (ha : a ∈ attempts) (hp : p ∈ a.outputs outputs) (hb : b ∈ attempts') (hq : q ∈ b.outputs outputs) :
    place p ≠ place q := by
  have hdistinct := h.distinct
  rw [List.flatMap_append, List.map_append] at hdistinct
  exact (List.nodup_append.mp hdistinct).2.2 _ (List.mem_map_of_mem (List.mem_flatMap_of_mem ha hp))
    _ (List.mem_map_of_mem (List.mem_flatMap_of_mem hb hq))

theorem AllApart.graphs_ne {place : Path → L} {outputs : Outputs} {k : Session.KernelListing}
    {base base' : Path} (h : AllApart place outputs [.graphs k]) (hbase : base ∈ outputs.blockGraph)
    (hbase' : base' ∈ outputs.instructionGraph) :
    place (outputName base "dot".toList k.device (some k.kernel))
      ≠ place (outputName base' "dot".toList k.device (some k.kernel)) := by
  have hdistinct := h.distinct
  rw [List.flatMap_singleton, Attempt.outputs, hbase, hbase'] at hdistinct
  exact fun heq => (List.nodup_cons.mp hdistinct).1 (heq ▸ List.mem_singleton_self _)

end Attempt

/-! ## One attempt -/

namespace Serves

variable {place : Path → L} {content : σ → L → Option Bytes} {tools : PassTools}
  {host : Host (StateM σ)} {services : Services (StateM σ)} {request : Request} {session : Session}
  {p : Path} {text : Text} {a : Attempt}

theorem keeps_readText (h : Serves place content tools host services) (p : Path) :
    Keeps content ∅ (host.files.readText p) := by
  refine (h.read p).bind fun answer => ?_
  cases answer with
  | error error => exact Keeps.pure _
  | ok bytes =>
    dsimp only
    split <;> exact Keeps.pure _

theorem keeps_writeText (h : Serves place content tools host services) (p : Path) (text : Text) :
    Keeps content {place p} (host.files.writeText p text) := by
  refine (h.write p _).bind fun answer => ?_
  cases answer with
  | error error => exact Keeps.pure _
  | ok => exact Keeps.pure _

/-- A text that is read is what the file holds. -/
theorem readText_ok (h : Serves place content tools host services)
    (hread : (host.files.readText p).run s = (.ok text, t)) :
    (content s (place p)).bind Utf8.decode? = some text := by
  rw [Files.readText, StateT.run_bind] at hread
  rcases hanswer : (host.files.read p).run s with ⟨answer, u⟩
  rw [hanswer] at hread
  cases answer with
  | error error => cases hread
  | ok bytes =>
    rw [h.read_ok p s bytes u hanswer, Option.bind_some]
    dsimp only [bind, Id.run] at hread
    split at hread
    · next text' hdecode =>
      rw [hdecode]
      exact congrArg some (Except.ok.inj (Prod.mk.inj hread).1)
    · cases hread

/-- A text that is written is what the file holds. -/
theorem writeText_ok (h : Serves place content tools host services)
    (hwrite : (host.files.writeText p text).run s = (.ok (), t)) :
    content t (place p) = some (Utf8.encode text) := by
  rw [Files.writeText, StateT.run_bind] at hwrite
  rcases hanswer : (host.files.write p (Utf8.encode text)).run s with ⟨answer, u⟩
  rw [hanswer] at hwrite
  cases answer with
  | error error => cases hwrite
  | ok =>
    obtain rfl : u = t := (Prod.mk.inj hwrite).2
    exact h.write_ok p _ s u hanswer

/-- A step behind the analyzer is one with the analyzer, if there is one. -/
theorem keeps_analyzer {written : Set L} {pass : Pass} {f : Analyzer (StateM σ) → Step (StateM σ) α}
    (hf : ∀ analyzer ∈ services.analyzer, Keeps content written (f analyzer).run.run) :
    Keeps content written (Pass.requireAnalyzer services pass >>= f).run.run := by
  rw [Pass.requireAnalyzer]
  cases hanalyzer : services.analyzer with
  | none => exact Keeps.pure _
  | some analyzer =>
    rw [pure_bind]
    exact hf analyzer hanalyzer

theorem keeps_drawing {written : Set L} {analyzer : Analyzer (StateM σ)}
    (h : Serves place content tools host services) (hanalyzer : analyzer ∈ services.analyzer)
    {k : Session.KernelListing} {granularity : Granularity} {base : Option Path}
    (hwritten : ∀ b ∈ base, place (outputName b "dot".toList k.device (some k.kernel)) ∈ written) :
    Keeps content written (Attempt.drawing analyzer k granularity base).run.run := by
  cases base with
  | none => exact Keeps.step_pure _
  | some base => exact ((h.graph analyzer hanalyzer _ _ _ _).mono
      (Set.singleton_subset_iff.mpr (hwritten base rfl))).step_ask

theorem keeps_sizing (h : Serves place content tools host services) (k : Session.KernelListing) :
    Keeps content ∅ (Attempt.sizing services k).run.run := by
  rw [Attempt.sizing]
  split
  · exact Keeps.step_ask (h.codeSize _ _)
  · exact Keeps.step_pure _

/-- **An attempt changes the files that it is to write only.** -/
theorem keeps_act (h : Serves place content tools host services) (request : Request)
    (session : Session) (a : Attempt) :
    Keeps content (place '' {p | p ∈ a.outputs request.outputs})
      (a.act host services request session).run.run := by
  cases a with
  | table k =>
    rw [Attempt.act, Pass.table, Attempt.outputs]
    split
    · exact Keeps.step_pure _
    · refine Keeps.step_bind ((h.keeps_readText _).mono (Set.empty_subset _)).step_ask fun _ => ?_
      exact ((h.keeps_writeText _ _).mono (by simp)).step_ask
  | statistic base k =>
    rw [Attempt.act, Attempt.statistic_eq]
    refine Keeps.step_bind ((h.keeps_sizing k).mono (Set.empty_subset _)) fun _ => ?_
    refine Keeps.step_bind ((h.keeps_readText _).mono (Set.empty_subset _)).step_ask fun _ => ?_
    refine Keeps.step_bind (Keeps.step_ofChecked _) fun _ => ?_
    exact ((h.keeps_writeText _ _).mono (by simp [Attempt.outputs])).step_ask
  | liveRegisters kind base k =>
    refine keeps_analyzer fun analyzer hanalyzer => ?_
    exact ((h.liveRegisters analyzer hanalyzer _ _ _ _).mono (by simp [Attempt.outputs])).step_ask
  | graphs k =>
    refine keeps_analyzer fun analyzer hanalyzer => ?_
    rw [Attempt.graphsOf_eq]
    refine Keeps.step_bind (h.keeps_drawing hanalyzer fun base hbase => ?_) fun _ =>
      h.keeps_drawing hanalyzer fun base hbase => ?_
    · exact Set.mem_image_of_mem place (Attempt.mem_outputs_graphs (.inl hbase))
    · exact Set.mem_image_of_mem place (Attempt.mem_outputs_graphs (.inr hbase))
  | note base binary =>
    refine Keeps.step_bind ((h.notes _).mono (Set.empty_subset _)).step_ask fun _ => ?_
    exact ((h.keeps_writeText _ _).mono (by simp [Attempt.outputs])).step_ask
  | document path =>
    refine Keeps.step_bind (Keeps.step_ofExcept _) fun _ => ?_
    exact ((h.keeps_writeText _ _).mono (by simp [Attempt.outputs])).step_ask

theorem sizing_ok (h : Serves place content tools host services) {k : Session.KernelListing}
    {size : Option Nat} (hsizing : Ends (Attempt.sizing services k).run s (.ok size) t) :
    size = k.record.binary.bind fun binary =>
      tools.codeSize (content s (place binary)) k.kernel := by
  rw [Attempt.sizing] at hsizing
  cases hbinary : k.record.binary with
  | none =>
    rw [hbinary] at hsizing
    exact (Except.ok.inj (ends_pure_iff.mp hsizing).1).symm
  | some binary =>
    rw [hbinary] at hsizing
    exact h.codeSize_ok _ _ _ _ _ (ends_step_ask_iff.mp hsizing)

theorem drawing_ok (h : Serves place content tools host services) {analyzer : Analyzer (StateM σ)}
    (hanalyzer : analyzer ∈ services.analyzer) {k : Session.KernelListing}
    {granularity : Granularity} {base : Path}
    (hdraw : Ends (Attempt.drawing analyzer k granularity (some base)).run s (.ok ()) t) :
    content t (place (outputName base "dot".toList k.device (some k.kernel)))
      = tools.graph (content s (place k.listing)) k.device granularity :=
  h.graph_ok analyzer hanalyzer _ _ _ _ _ _ (ends_step_ask_iff.mp hdraw)

theorem ends_analyzer {pass : Pass} {f : Analyzer (StateM σ) → Step (StateM σ) α} {b : α}
    (h : Ends (Pass.requireAnalyzer services pass >>= f).run s (.ok b) t) :
    ∃ analyzer ∈ services.analyzer, Ends (f analyzer).run s (.ok b) t := by
  rw [Pass.requireAnalyzer] at h
  cases hanalyzer : services.analyzer with
  | none =>
    rw [hanalyzer] at h
    cases (ends_pure_iff.mp h).1
  | some analyzer =>
    rw [hanalyzer, pure_bind] at h
    exact ⟨analyzer, rfl, h⟩

/-- Drawing leaves the files of other graphs as they are. -/
theorem eq_of_drawing (h : Serves place content tools host services) {analyzer : Analyzer (StateM σ)}
    (hanalyzer : analyzer ∈ services.analyzer) {k : Session.KernelListing}
    {granularity : Granularity} {base : Option Path} {answer : Except Fault Unit} {l : L}
    (hdraw : Ends (Attempt.drawing analyzer k granularity base).run s answer t)
    (hl : ∀ b ∈ base, place (outputName b "dot".toList k.device (some k.kernel)) ≠ l) :
    content t l = content s l := by
  have hkeeps : Keeps content {l}ᶜ (Attempt.drawing analyzer k granularity base).run.run :=
    h.keeps_drawing hanalyzer hl
  exact hkeeps.eq_of_ends hdraw fun hmem => hmem rfl

theorem made_of_table (h : Serves place content tools host services) {k : Session.KernelListing}
    (hact : Ends (Attempt.act host services request session (.table k)).run s (.ok ()) t) :
    ∀ e ∈ (Attempt.table k).made tools request session fun p => content s (place p),
      content t (place e.1) = e.2 := by
  rw [Attempt.act, Pass.table] at hact
  rw [Attempt.made]
  split at hact
  · next htemporary =>
    rw [if_pos htemporary]
    exact fun _ he => absurd he List.not_mem_nil
  · next htemporary =>
    obtain ⟨text, u, hread, hwrite⟩ := ends_step_bind_iff.mp hact
    rw [if_neg htemporary, h.readText_ok (ends_step_ask_iff.mp hread), Option.map_some]
    refine List.forall_mem_singleton.mpr ?_
    dsimp only
    exact h.writeText_ok (ends_step_ask_iff.mp hwrite)

theorem made_of_statistic (h : Serves place content tools host services) {base : Path}
    {k : Session.KernelListing}
    (hact : Ends (Attempt.act host services request session (.statistic base k)).run s (.ok ()) t) :
    ∀ e ∈ (Attempt.statistic base k).made tools request session fun p => content s (place p),
      content t (place e.1) = e.2 := by
  rw [Attempt.act, Attempt.statistic_eq] at hact
  obtain ⟨size, u, hsizing, hact⟩ := ends_step_bind_iff.mp hact
  obtain ⟨text, v, hread, hact⟩ := ends_step_bind_iff.mp hact
  obtain ⟨table, w, htable, hwrite⟩ := ends_step_bind_iff.mp hact
  -- asking for the size leaves the listing as it is
  have hsized : content u (place k.listing) = content s (place k.listing) :=
    (h.keeps_sizing k).eq_of_ends hsizing (Set.notMem_empty _)
  have htext := h.readText_ok (ends_step_ask_iff.mp hread)
  rw [hsized] at htext
  refine List.forall_mem_singleton.mpr ?_
  dsimp only
  rw [htext, Option.bind_some, ← h.sizing_ok hsizing, (ends_step_ofChecked_iff.mp htable).1]
  exact h.writeText_ok (ends_step_ask_iff.mp hwrite)

/-- The two graphs of a kernel go to different files, so that each is there in the end. -/
theorem made_of_graphs (h : Serves place content tools host services) {k : Session.KernelListing}
    (hapart : Attempt.AllApart place request.outputs [.graphs k])
    (hact : Ends (Attempt.act host services request session (.graphs k)).run s (.ok ()) t) :
    ∀ e ∈ (Attempt.graphs k).made tools request session fun p => content s (place p),
      content t (place e.1) = e.2 := by
  obtain ⟨analyzer, hanalyzer, hdraw⟩ := ends_analyzer hact
  rw [Attempt.graphsOf_eq] at hdraw
  obtain ⟨_, u, hblock, hinstruction⟩ := ends_step_bind_iff.mp hdraw
  intro e he
  rw [Attempt.made, List.mem_append, Option.mem_toList, Option.mem_toList, Option.map_eq_some_iff,
    Option.map_eq_some_iff] at he
  obtain ⟨base, hbase, rfl⟩ | ⟨base, hbase, rfl⟩ := he
  · have hkept := h.eq_of_drawing hanalyzer hinstruction fun base' hbase' =>
      (hapart.graphs_ne hbase hbase').symm
    rw [hbase] at hblock
    exact hkept.trans (h.drawing_ok hanalyzer hblock)
  · have hkept := h.eq_of_drawing hanalyzer hblock fun base' hbase' =>
      hapart.unread _ (List.mem_singleton_self _) _ (Attempt.mem_outputs_graphs (.inl hbase')) _
        (List.mem_singleton_self _) _ (List.mem_singleton_self _)
    rw [hbase] at hinstruction
    exact (h.drawing_ok hanalyzer hinstruction).trans (by rw [hkept])

/-- **A successful attempt leaves what it is to make.** -/
theorem made_of_ends (h : Serves place content tools host services)
    (hapart : Attempt.AllApart place request.outputs [a])
    (hact : Ends (a.act host services request session).run s (.ok ()) t) :
    ∀ e ∈ a.made tools request session fun p => content s (place p),
      content t (place e.1) = e.2 := by
  cases a with
  | table k => exact h.made_of_table hact
  | statistic base k => exact h.made_of_statistic hact
  | liveRegisters kind base k =>
    obtain ⟨analyzer, hanalyzer, hanalyze⟩ := ends_analyzer hact
    refine List.forall_mem_singleton.mpr ?_
    exact h.liveRegisters_ok analyzer hanalyzer _ _ _ _ _ _ (ends_step_ask_iff.mp hanalyze)
  | graphs k => exact h.made_of_graphs hapart hact
  | note base binary =>
    obtain ⟨text, u, hnotes, hwrite⟩ := ends_step_bind_iff.mp hact
    refine List.forall_mem_singleton.mpr ?_
    rw [← h.notes_ok _ _ _ _ (ends_step_ask_iff.mp hnotes)]
    exact h.writeText_ok (ends_step_ask_iff.mp hwrite)
  | document path =>
    obtain ⟨text, u, hdocument, hwrite⟩ := ends_step_bind_iff.mp hact
    refine List.forall_mem_singleton.mpr ?_
    rw [(ends_pure_iff.mp hdocument).1]
    exact h.writeText_ok (ends_step_ask_iff.mp hwrite)

end Serves

/-! ## Attempts side by side -/

/-- From a state to another one, attempts with the given answers changed the files that they were to
write only; and if those are different, each successful attempt left what it was to make of the
files of the first state. -/
structure Settles (place : Path → L) (content : σ → L → Option Bytes) (tools : PassTools)
    (request : Request) (session : Session) (s : σ) (answers : List (Attempt × Except Fault Unit))
    (t : σ) : Prop where
  kept : ∀ l, (∀ e ∈ answers, ∀ p ∈ e.1.outputs request.outputs, place p ≠ l) →
    content t l = content s l
  made : Attempt.AllApart place request.outputs (answers.map Prod.fst) → ∀ a, (a, .ok ()) ∈ answers →
    ∀ e ∈ a.made tools request session fun p => content s (place p), content t (place e.1) = e.2

namespace Settles

variable {place : Path → L} {content : σ → L → Option Bytes} {tools : PassTools}
  {request : Request} {session : Session} {answers answers' : List (Attempt × Except Fault Unit)}
  {u : σ}

/-- Where the contents stay, no attempt was made. -/
theorem nil (h : ∀ l, content t l = content s l) :
    Settles place content tools request session s [] t :=
  ⟨fun l _ => h l, fun _ _ ha => absurd ha List.not_mem_nil⟩

/-- **Attempts on different files do not disturb each other.** -/
theorem append (h : Settles place content tools request session s answers t)
    (h' : Settles place content tools request session t answers' u) :
    Settles place content tools request session s (answers ++ answers') u := by
  refine ⟨fun l hl => ?_, fun hapart a ha e he => ?_⟩
  · rw [h'.kept l fun e he => hl e (List.mem_append_right _ he),
      h.kept l fun e he => hl e (List.mem_append_left _ he)]
  · rw [List.map_append] at hapart
    rcases List.mem_append.mp ha with ha | ha
    · have hout : e.1 ∈ a.outputs request.outputs :=
        Attempt.map_fst_made tools request session _ a ▸ List.mem_map_of_mem he
      rw [h'.kept (place e.1) fun e' he' p hp => (hapart.ne_of_append (List.mem_map_of_mem ha) hout
        (List.mem_map_of_mem he') hp).symm]
      exact h.made (hapart.sublist (List.sublist_append_left _ _)) a ha e he
    · -- what the later attempt reads, the earlier ones left alone
      have hseen : ∀ q ∈ a.inputs, content t (place q) = content s (place q) := fun q hq =>
        h.kept (place q) fun e' he' p hp => hapart.unread e'.1
          (List.mem_append_left _ (List.mem_map_of_mem he')) p hp a
          (List.mem_append_right _ (List.mem_map_of_mem (f := Prod.fst) ha)) q hq
      refine h'.made (hapart.sublist (List.sublist_append_right _ _)) a ha e ?_
      rwa [Attempt.made_congr hseen]

end Settles

namespace Serves

variable {place : Path → L} {content : σ → L → Option Bytes} {tools : PassTools}
  {host : Host (StateM σ)} {services : Services (StateM σ)} {request : Request} {session : Session}
  {a : Attempt} {answer : Except Fault Unit} {answers : List (Attempt × Except Fault Unit)}
  {pass : Pass} {passes : List Pass} {result : Except Fault Unit} {accounts : List Pass.Account}

theorem settles_tell? (h : Serves place content tools host services) {notice : Option Notice}
    (htold : (tell? host notice).run s = ((), t)) :
    Settles place content tools request session s [] t := by
  refine Settles.nil fun l => ?_
  cases notice with
  | none => rw [(Prod.mk.inj htold).2]
  | some notice => exact (h.tell notice).eq_of_run htold (Set.notMem_empty l)

/-- An attempt settles its own files. -/
theorem settles_act (h : Serves place content tools host services)
    (hact : Ends (a.act host services request session).run s answer t) :
    Settles place content tools request session s [(a, answer)] t := by
  refine ⟨fun l hl => ?_, fun hapart a' ha' => ?_⟩
  · refine (h.keeps_act request session a).eq_of_ends hact ?_
    rintro ⟨p, hp, hplace⟩
    exact hl (a, answer) (List.mem_singleton_self _) p hp hplace
  · obtain ⟨rfl, rfl⟩ := Prod.mk.inj (List.mem_singleton.mp ha')
    exact h.made_of_ends hapart hact

/-- **Attempts one after the other settle their files.** -/
theorem settles_attempts (h : Serves place content tools host services)
    (hattempts : Attempts host services request session s answers t) :
    Settles place content tools request session s answers t := by
  induction hattempts with
  | done s => exact Settles.nil fun _ => rfl
  | success hact _ ih => exact (h.settles_act hact).append ih
  | failure hact htold _ ih => exact (h.settles_act hact).append ((h.settles_tell? htold).append ih)

/-- A pass settles the files of its attempts. -/
theorem settles_ran (h : Serves place content tools host services)
    (hran : Pass.Ran host services request session pass s answers result t) :
    Settles place content tools request session s answers t := by
  cases hran with
  | noAnalyzer => exact Settles.nil fun _ => rfl
  | attempted _ hopening hattempts _ =>
    exact (h.settles_tell? hopening).append (h.settles_attempts hattempts)

/-- **All passes settle the files of their attempts.** -/
theorem settles_ranAll (h : Serves place content tools host services)
    (hran : Pass.RanAll host services request session passes s accounts t) :
    Settles place content tools request session s (accounts.flatMap Pass.Account.answers) t := by
  induction hran with
  | done s => exact Settles.nil fun _ => rfl
  | pass hran htold _ ih => exact (h.settles_ran hran).append ((h.settles_tell? htold).append ih)

end Serves

/-! ## Two runs -/

namespace Pass

variable {σ' : Type} {place : Path → L} {content : σ → L → Option Bytes}
  {content' : σ' → L → Option Bytes} {tools : PassTools} {host : Host (StateM σ)}
  {services : Services (StateM σ)} {host' : Host (StateM σ')} {services' : Services (StateM σ')}
  {request : Request} {session : Session} {pass : Pass} {passes : List Pass}
  {answers : List (Attempt × Except Fault Unit)} {result : Except Fault Unit}
  {accounts accounts' : List Account} {a : Attempt} {p : Path} {s' t' : σ'}

/-- The attempts that a pass makes are among those that it is there for. -/
theorem Ran.sublist (h : Ran host services request session pass s answers result t) :
    (answers.map Prod.fst).Sublist (pass.attempts request.outputs session) := by
  cases h with
  | noAnalyzer => exact List.nil_sublist _
  | attempted _ _ _ hall => exact hall ▸ List.Sublist.refl _

/-- The attempts that passes make are among those that they are there for. -/
theorem RanAll.sublist (h : RanAll host services request session passes s accounts t) :
    ((accounts.flatMap Account.answers).map Prod.fst).Sublist
      (passes.flatMap (attempts request.outputs session)) := by
  induction h with
  | done => exact List.Sublist.refl _
  | pass hran _ _ ih =>
    rw [List.flatMap_cons, List.flatMap_cons, List.map_append]
    exact hran.sublist.append ih

/-- A pass changes the files of its attempts only. -/
theorem Ran.content_eq {l : L} (h : Ran host services request session pass s answers result t)
    (hserves : Serves place content tools host services)
    (hl : ∀ p ∈ (pass.attempts request.outputs session).flatMap (Attempt.outputs request.outputs),
      place p ≠ l) : content t l = content s l :=
  (hserves.settles_ran h).kept l fun _ he p hp =>
    hl p (List.mem_flatMap_of_mem (h.sublist.subset (List.mem_map_of_mem he)) hp)

/-- **A file of an attempt that succeeds in two runs is the same in both**, whatever became of the
other attempts. -/
theorem content_eq_of_ranAll (hserves : Serves place content tools host services)
    (hserves' : Serves place content' tools host' services')
    (hapart : Attempt.AllApart place request.outputs
      (passes.flatMap (attempts request.outputs session)))
    (hseen : ∀ p, content s (place p) = content' s' (place p))
    (hran : RanAll host services request session passes s accounts t)
    (hran' : RanAll host' services' request session passes s' accounts' t')
    (ha : (a, .ok ()) ∈ accounts.flatMap Account.answers)
    (ha' : (a, .ok ()) ∈ accounts'.flatMap Account.answers) (hp : p ∈ a.outputs request.outputs) :
    content t (place p) = content' t' (place p) := by
  have hmade := (hserves.settles_ranAll hran).made (hapart.sublist hran.sublist) a ha
  have hmade' := (hserves'.settles_ranAll hran').made (hapart.sublist hran'.sublist) a ha'
  rw [← Attempt.made_congr fun q _ => hseen q] at hmade'
  rw [← Attempt.map_fst_made tools request session (fun p => content s (place p)) a] at hp
  obtain ⟨e, he, rfl⟩ := List.mem_map.mp hp
  rw [hmade e he, hmade' e he]

end Pass

end KernelIsa
