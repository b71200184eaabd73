import KernelIsa.Bench.Rehearsal
import KernelIsa.Proofs.Build.History
import KernelIsa.Proofs.Device.Requests
import Mathlib.Algebra.GroupWithZero.Nat
import Mathlib.Algebra.Order.BigOperators.Group.List
import Mathlib.Algebra.Order.Group.Nat

/-!
# Proofs/Build/Accounts — what the session of a run says about its devices

Under any answers of the services and the files, and wherever the run is cancelled, the session has
records for the rejected devices and the visited targets only (`compile_covers`), and its tally
counts each of them once for its binary and once for its failure (`compile_counts`).  The counters
are naturals; those of devices leave 64 bits only if the devices do (`Course.check_tally_iff`).
-/

namespace KernelIsa

namespace Run

variable {σ : Type} {builder : Builder (StateM σ)} {resolver : Resolver} {request : Request}
  {resolution : Resolution} {visits : List (Visit σ)} {compiled : Compiled} {s t : σ}

theorem map_fst_built (targets : List Text) (visits : List (Visit σ)) :
    (progressOf targets visits).built.map Prod.fst = visits.map Visit.device := by
  rw [progressOf, List.map_map]
  rfl

namespace Course

theorem nodup_built (h : Course builder resolver request s resolution visits t) :
    ((progressOf resolution.targets visits).built.map Prod.fst).Nodup := by
  have hsorted := Resolver.pairwise_targets h.resolved
  rw [map_fst_built]
  refine (hsorted.sublist h.history.isPrefix.sublist).imp fun hlt heq => ?_
  rw [heq] at hlt
  simp at hlt

theorem isOf_built (h : Course builder resolver request s resolution visits t)
    {b : Text × Target.Outcome} (hb : b ∈ (progressOf resolution.targets visits).built) :
    b.2.session.IsOf b.1 := by
  obtain ⟨v, hv, rfl⟩ := List.mem_map.mp hb
  exact (h.history.made hv).isOf

/-- The record of a visit stands in the session. -/
theorem get?_gather_of_mem (h : Course builder resolver request s resolution visits t)
    {v : Visit σ} (hv : v ∈ visits) {key : RecordKey} {record : Record}
    (hget : v.outcome.session.records.get? key = some record) :
    (gathered resolution visits).session.records.get? key = some record := by
  have hkey : key.device = v.device := (h.history.made hv).isOf key record hget
  have hb : (key.device, v.outcome) ∈ (progressOf resolution.targets visits).built :=
    hkey ▸ List.mem_map_of_mem hv
  rw [Run.get?_gather_of_mem h.nodup_built (fun _ => h.isOf_built) hb, hget, Option.some_or]

/-- A device that was not visited has the record of a rejected device, if it is one. -/
theorem get?_gather_of_notMem (h : Course builder resolver request s resolution visits t)
    {key : RecordKey} (hkey : key.device ∉ visits.map Visit.device) :
    (gathered resolution visits).session.records.get? key
      = if key.kernel = none ∧ key.device ∈ resolution.rejected then some Record.failed
        else none := by
  rw [← map_fst_built resolution.targets] at hkey
  exact Run.get?_gather_of_notMem h.nodup_built (fun _ => h.isOf_built) hkey

/-- A device has records exactly if it was rejected or visited. -/
theorem deviceRecords_ne_nil_iff (h : Course builder resolver request s resolution visits t)
    (device : Text) :
    (gathered resolution visits).session.deviceRecords device ≠ [] ↔
      device ∈ resolution.rejected ∨ device ∈ visits.map Visit.device := by
  constructor
  · intro hne
    by_contra! hnot
    rw [← map_fst_built resolution.targets] at hnot
    exact hne (deviceRecords_gather_eq_nil h.nodup_built (fun _ => h.isOf_built) hnot.2 hnot.1)
  · rw [Session.deviceRecords_ne_nil_iff]
    intro hmem
    by_cases hvisited : device ∈ visits.map Visit.device
    · obtain ⟨v, hv, rfl⟩ := List.mem_map.mp hvisited
      obtain ⟨key, hsome⟩ := (h.history.made hv).exists_record
      obtain ⟨record, hget⟩ := Option.isSome_iff_exists.mp hsome
      exact ⟨key, Option.isSome_of_eq_some (h.get?_gather_of_mem hv hget),
        (h.history.made hv).isOf key record hget⟩
    · refine ⟨⟨device, none⟩, ?_, rfl⟩
      rw [h.get?_gather_of_notMem hvisited, if_pos ⟨rfl, hmem.resolve_right hvisited⟩]
      rfl

/-- A device that was only rejected has a failed record and no other. -/
theorem deviceRecords_of_rejected (h : Course builder resolver request s resolution visits t)
    {device : Text} (hrejected : device ∈ resolution.rejected)
    (hvisited : device ∉ visits.map Visit.device) :
    (gathered resolution visits).session.deviceRecords device
      = [(⟨device, none⟩, Record.failed)] := by
  refine Keyed.entries_filter_eq_singleton fun ⟨key, record⟩ => ?_
  rw [Keyed.mem_entries_iff, decide_eq_true_iff, Prod.mk.injEq]
  constructor
  · rintro ⟨hget, rfl⟩
    rw [h.get?_gather_of_notMem hvisited] at hget
    split at hget
    · next hkey =>
      obtain ⟨device, kernel⟩ := key
      obtain rfl : kernel = none := hkey.1
      exact ⟨rfl, (Option.some.inj hget).symm⟩
    · cases hget
  · rintro ⟨rfl, rfl⟩
    rw [h.get?_gather_of_notMem hvisited, if_pos ⟨rfl, hrejected⟩]
    exact ⟨rfl, rfl⟩

/-- A visit that went well left a record with the binary of its target. -/
theorem exists_of_succeeded (h : Course builder resolver request s resolution visits t)
    {v : Visit σ} (hv : v ∈ visits) (hsucceeded : v.outcome.succeeded) :
    ∃ e ∈ (gathered resolution visits).session.deviceRecords v.device, e.2.success ∧
      e.2.binary = some (builder.workspace.binary request.outputs.binary v.device).path := by
  have hmade := h.history.made hv
  obtain ⟨key, record, hget, hsuccess, hbinary⟩ := hmade.binary_of_succeeded hsucceeded
  exact ⟨(key, record), Session.mem_deviceRecords_iff.mpr
    ⟨h.get?_gather_of_mem hv hget, hmade.isOf key record hget⟩, hsuccess, hbinary⟩

end Course

/-! ## The records of a run -/

/-- What the records of a session say about a run that visited some of its targets. -/
structure Covers (builder : Builder (StateM σ)) (request : Request) (resolution : Resolution)
    (visits : List (Visit σ)) (session : Session) : Prop where
  sorted : resolution.targets.Pairwise fun a b => compare a b = .lt
  visited : visits.map Visit.device <+: resolution.targets
  recorded : ∀ device, session.deviceRecords device ≠ [] ↔
    device ∈ resolution.rejected ∨ device ∈ visits.map Visit.device
  succeeded : ∀ v ∈ visits, v.outcome.succeeded →
    ∃ e ∈ session.deviceRecords v.device, e.2.success ∧
      e.2.binary = some (builder.workspace.binary request.outputs.binary v.device).path
  rejected : ∀ device ∈ resolution.rejected, device ∉ visits.map Visit.device →
    session.deviceRecords device = [(⟨device, none⟩, Record.failed)]

/-- **A session has records for the rejected devices and the visited targets, and for no others.**
A target that went well has a record with its binary, and a device that was only rejected has a
failed one. -/
theorem compile_covers (h : Ends (compile builder resolver request).run s (.ok compiled) t) :
    ∃ resolution visits, Course builder resolver request s resolution visits t ∧
      Covers builder request resolution visits compiled.session := by
  obtain ⟨resolution, visits, hcourse, rfl⟩ := course_of_ends h
  exact ⟨resolution, visits, hcourse,
    { sorted := Resolver.pairwise_targets hcourse.resolved
      visited := hcourse.history.isPrefix
      recorded := hcourse.deviceRecords_ne_nil_iff
      succeeded := fun _ => hcourse.exists_of_succeeded
      rejected := fun _ => hcourse.deviceRecords_of_rejected }⟩

/-- A builder whose services are rehearsed. -/
def rehearsed (rehearsal : Rehearsal) : Builder Bench where
  host := World.host
  services := rehearsal.services
  compilerNames := .builtin
  workspace := ⟨Path.ofText "/tmp".toList, "1".toList⟩

/-- A resolver that knows two targets. -/
def twoTargets : Resolver where
  table := ⟨[("gfx900".toList, "gfx900".toList), ("gfx906".toList, "gfx906".toList)]⟩
  architecture := some
  supplement := .empty

/-- A request for two targets and an unknown device. -/
def threeDevices : Request where
  devices := ["gfx906".toList, "nonesuch".toList, "gfx900".toList]
  sources := [Path.ofText "k.cl".toList]
  outputs := { listing := some (Path.ofText "k.isa".toList) }

/-- The run is cancelled after its first target: one device is visited, one rejected, and one has no
record. -/
theorem compile_covers_cancelled :
    ∃ compiled t, Ends (compile (rehearsed { cancelAfter := some 1 }) twoTargets threeDevices).run {}
        (.ok compiled) t ∧
      ∃ resolution visits,
        Course (rehearsed { cancelAfter := some 1 }) twoTargets threeDevices {} resolution visits t ∧
        Covers (rehearsed { cancelAfter := some 1 }) threeDevices resolution visits
          compiled.session := by
  obtain ⟨compiled, t, h⟩ := exists_ends_of_gives
    (x := (compile (rehearsed { cancelAfter := some 1 }) twoTargets threeDevices).run) (s := {})
    (by decide +kernel)
  exact ⟨compiled, t, h, compile_covers h⟩

/-! ## The tally of a run -/

/-- What the tally of a session says about a run that visited some of its targets. -/
structure Counts (builder : Builder (StateM σ)) (request : Request) (resolution : Resolution)
    (visits : List (Visit σ)) (compiled : Compiled) : Prop where
  failed_eq : compiled.session.tally.failed
    = resolution.rejected.length + visits.countP fun v => !v.outcome.succeeded
  compiled_eq : compiled.session.tally.compiled
    = visits.countP fun v => Target.compiles builder request v.device v.start
  succeeded_iff : compiled.succeeded ↔
    compiled.session.tally.failed = 0 ∧ visits.map Visit.device = resolution.targets
  /-- One failure for each rejected device and the tally of each visit are the whole tally. -/
  parts : compiled.session.tally = (resolution.rejected.map fun _ => { failed := 1 }).sum
    + (visits.map fun v => v.outcome.session.tally).sum
  once : ∀ v ∈ visits,
    1 ≤ v.outcome.session.tally.compiled ∨ 1 ≤ v.outcome.session.tally.failed
  twice : ∀ v ∈ visits,
    1 ≤ v.outcome.session.tally.compiled → 1 ≤ v.outcome.session.tally.failed →
      Target.compiles builder request v.device v.start ∧ !v.outcome.succeeded
  reduced_le_split : compiled.session.tally.reduced ≤ compiled.session.tally.split

/-- Adding up ones is counting the items that pass a test. -/
theorem sum_map_eq_countP {α : Type} {f : α → Nat} {p : α → Bool} {l : List α}
    (h : ∀ a ∈ l, f a = if p a then 1 else 0) : (l.map f).sum = l.countP p := by
  induction l with
  | nil => rfl
  | cons a l ih =>
    rw [List.map_cons, List.sum_cons, List.countP_cons,
      ih fun a ha => h a (List.mem_cons_of_mem _ ha), h a List.mem_cons_self, Nat.add_comm]

theorem tally_gathered :
    (gathered resolution visits).session.tally
      = (resolution.rejected.map fun _ => { failed := 1 }).sum
        + (visits.map fun v => v.outcome.session.tally).sum := by
  rw [tally_gather, progressOf, List.map_map]
  rfl

/-- An additive counter adds up over the rejected devices and the visits. -/
theorem counter_gathered {f : Tally → Nat} (hzero : f 0 = 0) (hadd : ∀ a b, f (a + b) = f a + f b) :
    f (gathered resolution visits).session.tally = resolution.rejected.length * f { failed := 1 }
        + (visits.map fun v => f v.outcome.session.tally).sum := by
  rw [tally_gathered, hadd, Tally.sum_counter hzero hadd, Tally.sum_counter hzero hadd,
    List.map_map, List.map_map]
  refine congrArg (· + _) ?_
  rw [Function.comp_def, List.map_const', List.sum_replicate, Nat.nsmul_eq_mul]

namespace Course

theorem counted (h : Course builder resolver request s resolution visits t) {v : Visit σ}
    (hv : v ∈ visits) :
    Target.Counted (Target.compiles builder request v.device v.start) v.outcome.succeeded
      v.outcome.session.tally :=
  (h.history.made hv).counted

theorem failed_eq (h : Course builder resolver request s resolution visits t) :
    (gathered resolution visits).session.tally.failed
      = resolution.rejected.length + visits.countP fun v => !v.outcome.succeeded := by
  rw [counter_gathered (f := Tally.failed) rfl fun _ _ => rfl, Nat.mul_one]
  refine congrArg _ (sum_map_eq_countP fun v hv => ?_)
  rw [(h.counted hv).failed]
  cases v.outcome.succeeded <;> rfl

theorem compiled_eq (h : Course builder resolver request s resolution visits t) :
    (gathered resolution visits).session.tally.compiled
      = visits.countP fun v => Target.compiles builder request v.device v.start := by
  rw [counter_gathered (f := Tally.compiled) rfl fun _ _ => rfl, Nat.mul_zero, Nat.zero_add]
  exact sum_map_eq_countP fun v hv => (h.counted hv).compiled

theorem reduced_le_split (h : Course builder resolver request s resolution visits t) :
    (gathered resolution visits).session.tally.reduced
      ≤ (gathered resolution visits).session.tally.split := by
  rw [counter_gathered (f := Tally.reduced) rfl fun _ _ => rfl,
    counter_gathered (f := Tally.split) rfl fun _ _ => rfl]
  exact Nat.add_le_add_left (List.sum_le_sum fun v hv => (h.counted hv).reduced_le_split) _

/-- A run of fewer than `2 ^ 64` devices has a tally within 64 bits exactly if the kernels that it
split and the files that it removed are no more. -/
theorem check_tally_iff (h : Course builder resolver request s resolution visits t)
    (hdevices : resolution.rejected.length + resolution.targets.length < Word.limit) :
    (gathered resolution visits).session.tally.check = .ok () ↔
      (gathered resolution visits).session.tally.split < Word.limit ∧
        (gathered resolution visits).session.tally.removed < Word.limit := by
  have hvisits : visits.length ≤ resolution.targets.length := by
    rw [← List.length_map (f := Visit.device)]
    exact h.history.isPrefix.length_le
  have hcompiled : (gathered resolution visits).session.tally.compiled < Word.limit := by
    rw [h.compiled_eq]
    exact (List.countP_le_length.trans hvisits).trans_lt
      ((Nat.le_add_left _ _).trans_lt hdevices)
  have hfailed : (gathered resolution visits).session.tally.failed < Word.limit := by
    rw [h.failed_eq]
    exact (Nat.add_le_add_left (List.countP_le_length.trans hvisits) _).trans_lt hdevices
  have hreduced := h.reduced_le_split
  rw [Tally.check, ite_eq_left_iff]
  simp only [Tally.counts, List.all_cons, List.all_nil, Bool.and_eq_true, decide_eq_true_iff]
  grind

/-- All targets were visited if the run was not stopped before the end. -/
theorem visited_eq_iff (h : Course builder resolver request s resolution visits t) :
    visits.map Visit.device = resolution.targets ↔ ¬ visits.length < resolution.targets.length := by
  constructor
  · intro heq
    rw [← heq, List.length_map]
    exact Nat.lt_irrefl _
  · intro hnot
    refine h.history.isPrefix.eq_of_length_le ?_
    rw [List.length_map]
    exact Nat.not_lt.mp hnot

/-- A run goes well if nothing failed and all targets were visited. -/
theorem succeeded_iff (h : Course builder resolver request s resolution visits t) :
    (gathered resolution visits).succeeded ↔ (gathered resolution visits).session.tally.failed = 0 ∧
      visits.map Visit.device = resolution.targets := by
  have hvisits : (∀ b ∈ (progressOf resolution.targets visits).built, b.2.succeeded) ↔
      ∀ v ∈ visits, ¬ !v.outcome.succeeded := by simp [progressOf]
  have hstopped : (progressOf resolution.targets visits).isCancelled = false ↔
      ¬ visits.length < resolution.targets.length := decide_eq_false_iff_not
  rw [succeeded_gather, h.failed_eq, h.visited_eq_iff, Nat.add_eq_zero_iff, List.length_eq_zero_iff,
    List.countP_eq_zero, hvisits, hstopped, and_assoc, and_comm (b := ¬ _ < _)]

end Course

/-- **A run counts each visited target once for its binary and once for its failure.**  Rejected
devices count as failures, and the run went well exactly if there are none and no target was left
out. -/
theorem compile_counts (h : Ends (compile builder resolver request).run s (.ok compiled) t) :
    ∃ resolution visits, Course builder resolver request s resolution visits t ∧
      Counts builder request resolution visits compiled := by
  obtain ⟨resolution, visits, hcourse, rfl⟩ := course_of_ends h
  refine ⟨resolution, visits, hcourse, ?_⟩
  exact {
    failed_eq := hcourse.failed_eq
    compiled_eq := hcourse.compiled_eq
    succeeded_iff := hcourse.succeeded_iff
    parts := tally_gathered
    once := fun _ hv => (hcourse.counted hv).once
    twice := fun _ hv => (hcourse.counted hv).twice
    reduced_le_split := hcourse.reduced_le_split }

/-- Services whose disassembler fails on one of two targets. -/
def halfDisassembled : Rehearsal where
  disassemble := { byName := [("gfx906".toList, some { isFailed := true })] }

/-- One target goes well, one fails after its binary was built, and one device is rejected. -/
theorem compile_counts_halfDisassembled :
    ∃ compiled t, Ends (compile (rehearsed halfDisassembled) twoTargets threeDevices).run {}
        (.ok compiled) t ∧
      ∃ resolution visits,
        Course (rehearsed halfDisassembled) twoTargets threeDevices {} resolution visits t ∧
        Counts (rehearsed halfDisassembled) threeDevices resolution visits compiled := by
  obtain ⟨compiled, t, h⟩ := exists_ends_of_gives
    (x := (compile (rehearsed halfDisassembled) twoTargets threeDevices).run) (s := {})
    (by decide +kernel)
  exact ⟨compiled, t, h, compile_counts h⟩

end Run

end KernelIsa
