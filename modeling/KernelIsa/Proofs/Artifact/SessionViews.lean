import KernelIsa.Proofs.Artifact.Merge

/-!
# Proofs/Artifact/SessionViews — what the passes see of a session

The passes go through two views of a session: its kernels with a listing, one for each record that
went well and has one (`mem_kernelListings_iff`), and its binaries, one for each device that has a
record with one (`exists_mem_binaries_iff`).  Both stand in the order of their keys, each key once.
-/

namespace KernelIsa.Session

variable {session : Session} {k k' : KernelListing} {e : RecordKey × Record} {device : Text}

/-! ## Listings -/

/-- The key of the record behind a listing. -/
def KernelListing.key (k : KernelListing) : RecordKey := ⟨k.device, some k.kernel⟩

theorem kernelListing?_eq_some_iff : kernelListing? e = some k ↔
    e = (k.key, k.record) ∧ k.record.success ∧ k.record.listing = some k.listing := by
  obtain ⟨⟨device, _ | kernel⟩, record⟩ := e
  · refine iff_of_false nofun fun h => ?_
    cases congrArg (fun e : RecordKey × Record => e.1.kernel) h.1
  · rw [kernelListing?]
    constructor
    · intro h
      split at h
      · next hsuccess =>
        obtain ⟨listing, hlisting, rfl⟩ := Option.map_eq_some_iff.mp h
        exact ⟨rfl, hsuccess, hlisting⟩
      · cases h
    · rintro ⟨h, hsuccess, hlisting⟩
      obtain ⟨hkey, rfl⟩ := Prod.mk.inj h
      obtain ⟨rfl, hkernel⟩ := RecordKey.mk.inj hkey
      obtain rfl := Option.some.inj hkernel
      rw [if_pos hsuccess, hlisting]
      rfl

/-- **A kernel is seen exactly if its record went well and has a listing.** -/
theorem mem_kernelListings_iff : k ∈ session.kernelListings ↔
    session.records.get? k.key = some k.record ∧ k.record.success ∧
      k.record.listing = some k.listing := by
  rw [kernelListings, List.mem_filterMap, ← Keyed.mem_entries_iff]
  constructor
  · rintro ⟨e, he, hk⟩
    obtain ⟨rfl, h⟩ := kernelListing?_eq_some_iff.mp hk
    exact ⟨he, h⟩
  · rintro ⟨he, h⟩
    exact ⟨_, he, kernelListing?_eq_some_iff.mpr ⟨rfl, h⟩⟩

/-- **The listings stand in the order of their keys, each key once.** -/
theorem pairwise_kernelListings (session : Session) :
    session.kernelListings.Pairwise fun k k' => compare k.key k'.key = .lt := by
  rw [kernelListings, List.pairwise_filterMap]
  refine session.records.ordered.imp fun hlt k hk k' hk' => ?_
  rw [(kernelListing?_eq_some_iff.mp hk).1, (kernelListing?_eq_some_iff.mp hk').1] at hlt
  exact hlt

theorem nodup_kernelListings (session : Session) : session.kernelListings.Nodup := by
  refine session.pairwise_kernelListings.imp fun {k k'} hlt heq => ?_
  rw [heq] at hlt
  simp at hlt

/-- A kernel is seen once. -/
theorem eq_of_key_eq (hk : k ∈ session.kernelListings) (hk' : k' ∈ session.kernelListings)
    (hkey : k.key = k'.key) : k = k' := by
  obtain ⟨hget, -, hlisting⟩ := mem_kernelListings_iff.mp hk
  obtain ⟨hget', -, hlisting'⟩ := mem_kernelListings_iff.mp hk'
  rw [hkey, hget'] at hget
  have hrecord : k.record = k'.record := (Option.some.inj hget).symm
  rw [hrecord, hlisting'] at hlisting
  obtain ⟨hdevice, hkernel⟩ := RecordKey.mk.inj hkey
  exact (KernelListing.mk.injEq ..).mpr
    ⟨hdevice, Option.some.inj hkernel, (Option.some.inj hlisting).symm, hrecord⟩

/-! ## Binaries -/

/-- **The binaries stand in the order of their devices, each device once.** -/
theorem pairwise_binaries (session : Session) :
    session.binaries.Pairwise fun b b' => compare b.1 b'.1 = .lt := Keyed.ordered _

/-- **A device has a binary to be seen exactly if one of its records went well and has one.** -/
theorem exists_mem_binaries_iff : (∃ binary, (device, binary) ∈ session.binaries) ↔
    ∃ key record, session.records.get? key = some record ∧ key.device = device ∧ record.success ∧
      record.binary.isSome := by
  have hdevice (e : RecordKey × Record) (b : Text × Path) : deviceBinary? e = some b ↔
      e.2.success ∧ e.2.binary = some b.2 ∧ e.1.device = b.1 := by
    obtain ⟨device, binary⟩ := b
    rw [deviceBinary?]
    cases e.2.success <;> simp
  simp only [binaries, Keyed.mem_entries_iff, Keyed.get?_ofList, ← Option.isSome_iff_exists,
    Keyed.last?_isSome_iff, List.mem_map, List.mem_reverse, List.mem_filterMap]
  constructor
  · rintro ⟨b, ⟨e, he, hb⟩, rfl⟩
    obtain ⟨hsuccess, hbinary, hkey⟩ := (hdevice e b).mp hb
    exact ⟨e.1, e.2, Keyed.mem_entries_iff.mp he, hkey, hsuccess, Option.isSome_of_eq_some hbinary⟩
  · rintro ⟨key, record, hget, rfl, hsuccess, hsome⟩
    obtain ⟨binary, hbinary⟩ := Option.isSome_iff_exists.mp hsome
    exact ⟨(key.device, binary), ⟨(key, record), Keyed.mem_entries_iff.mpr hget,
      (hdevice _ _).mpr ⟨hsuccess, hbinary, rfl⟩⟩, rfl⟩

end KernelIsa.Session
