import KernelIsa.Proofs.Artifact.Merge
import Mathlib.Data.Set.Basic

/-!
# Proofs/Artifact/TemporaryFiles — the list of the files to be removed

The temporary files of a session are listed in the order of their components, so that of several
spellings of a file one is kept (`Session.pairwise_insertPath`).  The list has the temporary files
of all records and no others (`Session.listsOnce_temporaryFiles`).
-/

namespace KernelIsa

/-! ## The order of paths -/

namespace Path

namespace Component

instance : Std.TransOrd Component :=
  inferInstanceAs (Std.TransCmp (compareLex (compareOn rank) (compareOn bytes)))

instance : Std.LawfulEqOrd Component where
  eq_of_compare {a b} h := by
    change (compare a.rank b.rank).then (compare a.bytes b.bytes) = .eq at h
    obtain ⟨hrank, hbytes⟩ := Ordering.then_eq_eq.mp h
    have hrank' : a.rank = b.rank := Std.LawfulEqOrd.eq_of_compare hrank
    have hbytes' : a.bytes = b.bytes := Std.LawfulEqOrd.eq_of_compare hbytes
    cases a <;> cases b <;> simp_all [rank, bytes]

end Component

instance : Std.TransCmp order := inferInstanceAs (Std.TransCmp (compareOn components))

theorem order_eq_iff {p q : Path} : order p q = .eq ↔ p.components = q.components := by
  rw [order]
  exact Std.compare_eq_iff_eq

end Path

/-- A list has, among the paths of a set, each file once, in one of its spellings. -/
structure ListsOnce (files : List Path) (paths : Set Path) : Prop where
  distinct : (files.map Path.components).Nodup
  sound : ∀ p ∈ files, p ∈ paths
  complete : ∀ p ∈ paths, ∃ q ∈ files, q.components = p.components

namespace Session

variable {p q : Path} {files : List Path}

/-! ## Putting in a path -/

theorem mem_insertPath (h : q ∈ insertPath p files) : q = p ∨ q ∈ files := by
  induction files with
  | nil => exact .inl (List.mem_singleton.mp h)
  | cons first rest ih =>
    rw [insertPath] at h
    split at h
    · exact List.mem_cons.mp h
    · exact .inr h
    · rcases List.mem_cons.mp h with rfl | h
      · exact .inr List.mem_cons_self
      · exact (ih h).imp_right (List.mem_cons_of_mem _)

/-- What was listed stays listed. -/
theorem mem_insertPath_of_mem (p : Path) (h : q ∈ files) : q ∈ insertPath p files := by
  induction files with
  | nil => cases h
  | cons first rest ih =>
    rw [insertPath]
    split
    · exact List.mem_cons_of_mem _ h
    · exact h
    · rcases List.mem_cons.mp h with rfl | h
      · exact List.mem_cons_self
      · exact List.mem_cons_of_mem _ (ih h)

/-- The path that is put in is listed, in some spelling. -/
theorem exists_mem_insertPath (p : Path) (files : List Path) :
    ∃ q ∈ insertPath p files, q.components = p.components := by
  induction files with
  | nil => exact ⟨p, List.mem_singleton_self p, rfl⟩
  | cons first rest ih =>
    rw [insertPath]
    split
    · exact ⟨p, List.mem_cons_self, rfl⟩
    · next heq => exact ⟨first, List.mem_cons_self, (Path.order_eq_iff.mp heq).symm⟩
    · obtain ⟨q, hq, heq⟩ := ih
      exact ⟨q, List.mem_cons_of_mem _ hq, heq⟩

/-- **A sorted list stays sorted.** -/
theorem pairwise_insertPath (p : Path) (h : files.Pairwise fun p q => p.order q = .lt) :
    (insertPath p files).Pairwise fun p q => p.order q = .lt := by
  induction files with
  | nil => exact List.pairwise_singleton _ _
  | cons first rest ih =>
    obtain ⟨hfirst, hrest⟩ := List.pairwise_cons.mp h
    rw [insertPath]
    split
    · next hlt =>
      refine List.pairwise_cons.mpr ⟨fun q hq => ?_, h⟩
      rcases List.mem_cons.mp hq with rfl | hq
      · exact hlt
      · exact Std.TransCmp.lt_trans hlt (hfirst q hq)
    · exact h
    · next hgt =>
      refine List.pairwise_cons.mpr ⟨fun q hq => ?_, ih hrest⟩
      rcases mem_insertPath hq with rfl | hq
      · exact Std.OrientedCmp.lt_of_gt hgt
      · exact hfirst q hq

/-! ## The whole list -/

theorem distinct_of_pairwise (h : files.Pairwise fun p q => p.order q = .lt) :
    (files.map Path.components).Nodup := by
  rw [List.nodup_iff_pairwise_ne, List.pairwise_map]
  refine h.imp fun hlt heq => ?_
  rw [Path.order_eq_iff.mpr heq] at hlt
  cases hlt

/-- Putting in paths one after the other lists them, and keeps what was listed. -/
theorem listsOnce_foldl (paths : List Path) (files : List Path)
    (hsorted : files.Pairwise fun p q => p.order q = .lt) :
    ListsOnce (paths.foldl (fun files p => insertPath p files) files)
      {p | p ∈ files ∨ p ∈ paths} := by
  induction paths generalizing files with
  | nil =>
    exact { distinct := distinct_of_pairwise hsorted
            sound := fun p hp => .inl hp
            complete := fun p hp => ⟨p, hp.resolve_right List.not_mem_nil, rfl⟩ }
  | cons path paths ih =>
    have hlists := ih _ (pairwise_insertPath path hsorted)
    refine ⟨hlists.distinct, fun p hp => ?_, fun p hp => ?_⟩
    · rcases hlists.sound p hp with hp | hp
      · exact (mem_insertPath hp).elim (fun heq => .inr (heq ▸ List.mem_cons_self)) .inl
      · exact .inr (List.mem_cons_of_mem _ hp)
    · rcases hp with hp | hp
      · exact hlists.complete p (.inl (mem_insertPath_of_mem path hp))
      · rcases List.mem_cons.mp hp with rfl | hp
        · obtain ⟨q, hq, heq⟩ := exists_mem_insertPath p files
          obtain ⟨q', hq', heq'⟩ := hlists.complete q (.inl hq)
          exact ⟨q', hq', heq'.trans heq⟩
        · exact hlists.complete p (.inr hp)

/-- **The temporary files of a session are those of its records, each once.** -/
theorem listsOnce_temporaryFiles (session : Session) :
    ListsOnce session.temporaryFiles {p | ∃ key record,
      session.records.get? key = some record ∧ p ∈ record.temporaryFiles} := by
  have hlists := listsOnce_foldl (session.records.values.flatMap Record.temporaryFiles) [] .nil
  have hpaths (p : Path) : p ∈ session.records.values.flatMap Record.temporaryFiles ↔
      ∃ key record, session.records.get? key = some record ∧ p ∈ record.temporaryFiles := by
    simp only [List.mem_flatMap, Keyed.values, List.mem_map, Prod.exists, ← Keyed.mem_entries_iff]
    constructor
    · rintro ⟨record, ⟨key, _, hmem, rfl⟩, hp⟩
      exact ⟨key, _, hmem, hp⟩
    · rintro ⟨key, record, hmem, hp⟩
      exact ⟨record, ⟨key, record, hmem, rfl⟩, hp⟩
  refine ⟨hlists.distinct, fun p hp => ?_, fun p hp => ?_⟩
  · exact (hpaths p).mp ((hlists.sound p hp).resolve_left List.not_mem_nil)
  · exact hlists.complete p (.inr ((hpaths p).mpr hp))

end Session

end KernelIsa
