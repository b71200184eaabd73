import KernelIsa.Artifact.Session
import KernelIsa.Proofs.Collection.LookUp
import Mathlib.Algebra.BigOperators.Group.List.Basic
import Mathlib.Algebra.GroupWithZero.Nat

/-!
# Proofs/Artifact/Merge — sessions through their look-ups

A session is its look-ups and its tally.  Tallies add up like numbers (`Tally.sum_counter`), and
where sessions of different devices are put into one another, each key is looked up in the session
of its own device (`get?_foldl_merge`).
-/

namespace KernelIsa

/-! ## Tallies -/

namespace Tally

instance : Zero Tally := ⟨{}⟩

theorem add_def (a b : Tally) : a + b = ⟨a.compiled + b.compiled, a.failed + b.failed,
    a.split + b.split, a.reduced + b.reduced, a.removed + b.removed⟩ := rfl

instance : AddCommMonoid Tally where
  add_assoc a b c := by simp only [add_def, Nat.add_assoc]
  zero_add a := by
    obtain ⟨_, _, _, _, _⟩ := a
    change (⟨0 + _, 0 + _, 0 + _, 0 + _, 0 + _⟩ : Tally) = _
    simp only [Nat.zero_add]
  add_zero _ := rfl
  add_comm a b := by simp only [add_def, Nat.add_comm]
  nsmul := nsmulRec

/-- What an additive counter says of a sum. -/
theorem sum_counter {f : Tally → Nat} (hzero : f 0 = 0) (hadd : ∀ a b, f (a + b) = f a + f b)
    (tallies : List Tally) : f tallies.sum = (tallies.map f).sum := by
  induction tallies with
  | nil => exact hzero
  | cons tally tallies ih => rw [List.sum_cons, hadd, ih, List.map_cons, List.sum_cons]

end Tally

/-! ## Look-ups -/

namespace Session

variable {session : Session} {device : Text} {key key' : RecordKey} {record record' : Record}
  {binary : Placement}

/-- Sessions with the same look-ups and the same tally are the same. -/
theorem ext_get? {session session' : Session}
    (hrecords : ∀ key, session.records.get? key = session'.records.get? key)
    (htally : session.tally = session'.tally) : session = session' := by
  obtain ⟨records, tally⟩ := session
  obtain ⟨records', tally'⟩ := session'
  rw [mk.injEq]
  exact ⟨Keyed.ext hrecords, htally⟩

theorem get?_insert (session : Session) (key : RecordKey) (record : Record) (key' : RecordKey) :
    (session.insert key record).records.get? key'
      = if key = key' then some record else session.records.get? key' :=
  Keyed.get?_insert _ _ _ _

theorem get?_insert_self (session : Session) (key : RecordKey) (record : Record) :
    (session.insert key record).records.get? key = some record := by
  rw [get?_insert, if_pos rfl]

theorem get?_setBinary (session : Session) (device : Text) (binary : Placement) (key : RecordKey) :
    (session.setBinary device binary).records.get? key = (session.records.get? key).map fun record =>
      if key.device = device then record.withBinary binary else record :=
  Keyed.get?_mapValues _ _ _

theorem get?_merge (session other : Session) (key : RecordKey) :
    (session.merge other).records.get? key
      = (other.records.get? key).or (session.records.get? key) :=
  Keyed.get?_union _ _ _

theorem mem_deviceRecords_iff : (key, record) ∈ session.deviceRecords device ↔
    session.records.get? key = some record ∧ key.device = device := by
  rw [deviceRecords, List.mem_filter, Keyed.mem_entries_iff, decide_eq_true_iff]

theorem deviceRecords_ne_nil_iff : session.deviceRecords device ≠ [] ↔
    ∃ key, (session.records.get? key).isSome ∧ key.device = device := by
  constructor
  · intro hne
    obtain ⟨⟨key, record⟩, hmem⟩ := List.exists_mem_of_ne_nil _ hne
    obtain ⟨hget, hkey⟩ := mem_deviceRecords_iff.mp hmem
    exact ⟨key, Option.isSome_of_eq_some hget, hkey⟩
  · rintro ⟨key, hsome, hkey⟩
    obtain ⟨record, hget⟩ := Option.isSome_iff_exists.mp hsome
    exact List.ne_nil_of_mem (mem_deviceRecords_iff.mpr ⟨hget, hkey⟩)

/-- Sessions with the same look-ups for a device have the same records of it. -/
theorem deviceRecords_congr {session' : Session}
    (h : ∀ key : RecordKey, key.device = device →
      session.records.get? key = session'.records.get? key) :
    session.deviceRecords device = session'.deviceRecords device := by
  have hfilter : session.records.filter (fun key _ => key.device = device)
      = session'.records.filter fun key _ => key.device = device := by
    refine Keyed.ext fun key => ?_
    rw [Keyed.get?_filter, Keyed.get?_filter]
    by_cases hkey : key.device = device
    · rw [h key hkey]
    · simp [hkey]
  exact congrArg Keyed.entries hfilter

/-! ## Sessions of one device -/

/-- All records are about one device. -/
def IsOf (device : Text) (session : Session) : Prop :=
  ∀ key record, session.records.get? key = some record → key.device = device

theorem isOf_empty (device : Text) : IsOf device {} := fun _ _ h => by cases h

theorem IsOf.insert (h : session.IsOf device) (hkey : key.device = device) :
    (session.insert key record).IsOf device := by
  intro key' record' hget
  rw [get?_insert] at hget
  split at hget
  · next heq => rw [← heq, hkey]
  · exact h key' record' hget

theorem IsOf.setBinary (h : session.IsOf device) : (session.setBinary device binary).IsOf device := by
  intro key record hget
  rw [get?_setBinary] at hget
  obtain ⟨record', hget, -⟩ := Option.map_eq_some_iff.mp hget
  exact h key record' hget

theorem IsOf.get?_eq_none (h : session.IsOf device) (hkey : key.device ≠ device) :
    session.records.get? key = none :=
  Option.eq_none_iff_forall_ne_some.mpr fun record hget => hkey (h key record hget)

/-! ## Sessions put into one another -/

section Merged

variable {α : Type} {f : α → Session} {built : List (Text × α)}

theorem tally_foldl_merge (f : α → Session) (built : List (Text × α)) (session : Session) :
    (built.foldl (fun session b => session.merge (f b.2)) session).tally
      = session.tally + (built.map fun b => (f b.2).tally).sum := by
  induction built generalizing session with
  | nil => exact (add_zero _).symm
  | cons b built ih =>
    rw [List.foldl_cons, ih, List.map_cons, List.sum_cons, ← add_assoc]
    rfl

/-- **Each key is looked up in the session of its own device.** -/
theorem get?_foldl_merge (hnodup : (built.map Prod.fst).Nodup)
    (hof : ∀ b ∈ built, (f b.2).IsOf b.1) (session : Session) (key : RecordKey) :
    (built.foldl (fun session b => session.merge (f b.2)) session).records.get? key
      = ((Keyed.last? key.device built).bind fun a => (f a).records.get? key).or
          (session.records.get? key) := by
  induction built generalizing session with
  | nil => rfl
  | cons b built ih =>
    obtain ⟨hb, hnodup⟩ := List.nodup_cons.mp hnodup
    rw [List.foldl_cons, ih hnodup (fun b h => hof b (List.mem_cons_of_mem _ h)), get?_merge,
      Keyed.last?_cons]
    by_cases hkey : b.1 = key.device
    · have hnone : Keyed.last? key.device built = none := Keyed.last?_eq_none_iff.mpr fun e he heq =>
        hb (hkey.trans heq.symm ▸ List.mem_map_of_mem he)
      rw [hnone, if_pos hkey]
      rfl
    · rw [if_neg hkey, Option.or_none,
        (hof b List.mem_cons_self).get?_eq_none (Ne.symm hkey), Option.none_or]

end Merged

end Session

end KernelIsa
