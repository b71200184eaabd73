import KernelIsa.Proofs.Bench.DiskChanges

/-!
# Proofs/Build/Presence — what lies at a path, as the answers about files tell

The program never looks at a file to learn whether a tool wrote it: it removes files, and it asks
whether a path is there.  A view `at?` of the states gives what lies at each path, and the answers
agree with it as those of a file system do (`Files.Shows`, `Host.Clears`).  No law says that two
paths lead to different files, so links are allowed.  A world in memory has such a view
(`World.clears_host`).
-/

namespace KernelIsa

variable {σ C : Type}

/-- A path is present exactly if something lies there, and asking changes nothing. -/
structure Files.Shows (files : Files (StateM σ)) (at? : σ → Path → Option C) : Prop where
  isPresent : ∀ {p isPresent s t},
    (files.isPresent p).run s = ((isPresent, t) : Bool × σ) →
    isPresent = (at? s p).isSome ∧ at? t = at? s

/-- A file that was removed is gone, nothing lies where a file to be removed is missing, and neither
refused removals nor notices change anything. -/
structure Host.Clears (host : Host (StateM σ)) (at? : σ → Path → Option C) : Prop
    extends host.files.Shows at? where
  removed : ∀ {p s t}, (host.files.remove p).run s = ((.ok (), t) : Except FileError Unit × σ) →
    at? t p = none
  missing : ∀ {p s t},
    (host.files.remove p).run s = ((.error .missing, t) : Except FileError Unit × σ) → at? s p = none
  refused : ∀ {p error s t},
    (host.files.remove p).run s = ((.error error, t) : Except FileError Unit × σ) → at? t = at? s
  told : ∀ notice s, at? ((host.tell notice).run s : Unit × σ).2 = at? s

/-- What lies at a path of a world. -/
def World.at? (world : World) (p : Path) : Option Node := (world.disk.lookup p).toOption

theorem World.at?_eq_none_iff {world : World} {p : Path} :
    world.at? p = none ↔ world.disk.place? p = none := by
  rw [at?, Disk.lookup, Disk.place?]
  cases world.disk.find p with
  | error error => exact iff_of_true rfl rfl
  | ok found => exact iff_of_false (Option.some_ne_none _) (Option.some_ne_none _)

/-- **A world shows and removes files as a file system does.** -/
theorem World.clears_host : World.host.Clears World.at? where
  isPresent {p isPresent s t} h := by
    obtain ⟨rfl, rfl⟩ := Prod.mk.inj h
    refine ⟨?_, rfl⟩
    rw [Disk.isPresent, at?]
    cases s.disk.lookup p <;> rfl
  removed h := by
    obtain ⟨disk, hremove, -, rfl⟩ | ⟨_, -, hanswer, -⟩ := removed_or_refused h
    · obtain ⟨l, hplace, hdisk⟩ := Disk.place?_remove hremove
      rw [at?_eq_none_iff, hdisk, if_pos hplace]
    · cases hanswer
  missing h := by
    obtain ⟨_, -, hanswer, -⟩ | ⟨error, hremove, hanswer, -⟩ := removed_or_refused h
    · cases hanswer
    · obtain rfl := Except.error.inj hanswer
      exact at?_eq_none_iff.mpr (Disk.place?_eq_none_of_remove hremove)
  refused h := by
    obtain ⟨_, -, hanswer, -⟩ | ⟨_, -, -, rfl⟩ := removed_or_refused h
    · cases hanswer
    · rfl
  told _ _ := rfl

end KernelIsa
