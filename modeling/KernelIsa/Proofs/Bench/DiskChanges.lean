import KernelIsa.Bench.World

/-!
# Proofs/Bench/DiskChanges — what writing and removing a file does to a disk

Neither operation touches a directory, and paths are walked through directories only
(`walkFrom_mono`).  So after a file was removed no path leads to it, and all others lead where they
led before (`place?_remove`); and a write that succeeds behind another one succeeds without it
(`write_isOk_of_behind`).
-/

namespace KernelIsa

namespace Disk

variable {disk disk' : Disk} {l l' : Location} {node : Node} {p q : Path} {content : Bytes}
  {spot : Spot}

/-! ## Nodes -/

theorem node?_nil (disk : Disk) : disk.node? [] = some .directory := rfl

theorem node?_of_ne_nil (h : l ≠ []) :
    disk.node? l = (disk.nodes.find? fun e => e.1 = l).map Prod.snd :=
  if_neg (by simpa using h)

theorem find?_filter_ne (nodes : List (Location × Node)) (h : l' ≠ l) :
    (nodes.filter fun e => e.1 ≠ l).find? (fun e => e.1 = l') = nodes.find? fun e => e.1 = l' := by
  rw [List.find?_filter]
  congr 1
  funext e
  by_cases he : e.1 = l' <;> simp [he, h]

theorem find?_filter_self (nodes : List (Location × Node)) :
    (nodes.filter fun e => e.1 ≠ l).find? (fun e => e.1 = l) = none :=
  List.find?_eq_none.mpr fun e he => by simpa using (List.mem_filter.mp he).2

theorem node?_put (disk : Disk) (node : Node) (h : l ≠ []) (l' : Location) :
    (disk.put l node).node? l' = if l' = l then some node else disk.node? l' := by
  by_cases hnil : l' = []
  · rw [hnil, node?_nil, node?_nil, if_neg h.symm]
  · rw [node?_of_ne_nil hnil, node?_of_ne_nil hnil, put, List.find?_append]
    by_cases heq : l' = l
    · rw [if_pos heq, heq, find?_filter_self, Option.none_or, List.find?_cons_of_pos (by simp)]
      rfl
    · rw [if_neg heq, find?_filter_ne _ heq, List.find?_cons_of_neg (by simpa using Ne.symm heq),
        List.find?_nil, Option.or_none]

theorem node?_erase (disk : Disk) (h : l ≠ []) (l' : Location) :
    (disk.erase l).node? l' = if l' = l then none else disk.node? l' := by
  by_cases hnil : l' = []
  · rw [hnil, node?_nil, node?_nil, if_neg h.symm]
  · rw [node?_of_ne_nil hnil, node?_of_ne_nil hnil, erase]
    by_cases heq : l' = l
    · rw [if_pos heq, heq, find?_filter_self]
      rfl
    · rw [if_neg heq, find?_filter_ne _ heq]

/-! ## Walking -/

/-- All directories of the first disk are directories of the second one. -/
def DirectoriesIn (disk' disk : Disk) : Prop :=
  ∀ l, disk'.node? l = some .directory → disk.node? l = some .directory

/-- **A walk through directories goes wherever they are.** -/
theorem walkFrom_mono (h : DirectoriesIn disk' disk) {segments : List Bytes}
    (hwalk : disk'.walkFrom l segments = .ok spot) : disk.walkFrom l segments = .ok spot := by
  induction segments generalizing l with
  | nil => exact hwalk
  | cons segment rest ih =>
    cases rest with
    | nil => exact hwalk
    | cons second rest =>
      have hne : second :: rest = [] → False := nofun
      rw [walkFrom.eq_3 _ _ _ _ hne] at hwalk ⊢
      split
      · next hslash => rwa [if_pos hslash] at hwalk
      · next hslash =>
        rw [if_neg hslash] at hwalk
        split
        · next hlong =>
          rw [if_pos hlong] at hwalk
          cases hwalk
        · next hlong =>
          rw [if_neg hlong] at hwalk
          split at hwalk
          · next hdirectory =>
            rw [h _ hdirectory]
            exact ih hwalk
          · cases hwalk
          · cases hwalk

theorem walk_mono (h : DirectoriesIn disk' disk) (hwalk : disk'.walk p = .ok spot) :
    disk.walk p = .ok spot := by
  rw [walk] at hwalk ⊢
  split at hwalk
  · cases hwalk
  · split at hwalk
    · cases hwalk
    · split at hwalk
      · cases hwalk
      · next hzero hempty hlong =>
        rw [if_neg hzero, if_neg hempty, if_neg hlong]
        exact walkFrom_mono h hwalk

/-! ## Removing -/

/-- Where the thing is that a path leads to. -/
def place? (disk : Disk) (p : Path) : Option Location :=
  match disk.find p with
  | .ok (spot, _) => some spot.location
  | .error _ => none

/-- What is found stands at the end of the walk. -/
theorem find_eq_ok_iff : disk.find p = .ok (spot, node) ↔
    disk.walk p = .ok spot ∧ checkName spot.location = .ok () ∧
      disk.node? spot.location = some node ∧ (node = .directory ∨ spot.endsInSlash = false) := by
  rw [find]
  cases hwalk : disk.walk p with
  | error error => exact ⟨fun h => (nomatch h), fun h => (nomatch h.1)⟩
  | ok found =>
    simp only [bind, Except.bind]
    cases hname : checkName found.location with
    | error error =>
      refine ⟨fun h => (nomatch h), fun h => ?_⟩
      obtain ⟨heq, hok, -⟩ := h
      obtain rfl := Except.ok.inj heq
      cases hname.symm.trans hok
    | ok =>
      dsimp only
      constructor
      · intro h
        split at h
        · cases h
        · next hnode =>
          obtain ⟨rfl, rfl⟩ := Prod.mk.inj (Except.ok.inj h)
          exact ⟨rfl, hname, hnode, .inl rfl⟩
        · next found' _ hnode =>
          split at h
          · cases h
          · next hslash =>
            obtain ⟨rfl, rfl⟩ := Prod.mk.inj (Except.ok.inj h)
            exact ⟨rfl, hname, hnode, .inr (Bool.eq_false_iff.mpr hslash)⟩
      · rintro ⟨heq, -, hnode, hend⟩
        obtain rfl := Except.ok.inj heq
        rw [hnode]
        cases node with
        | directory => rfl
        | _ => exact if_neg (by simpa using hend)

theorem place?_eq_some_iff : disk.place? p = some l ↔
    ∃ spot node, disk.find p = .ok (spot, node) ∧ spot.location = l := by
  rw [place?]
  cases disk.find p with
  | error error => exact ⟨fun h => (nomatch h), fun ⟨_, _, h, _⟩ => (nomatch h)⟩
  | ok found =>
    refine ⟨fun h => ⟨found.1, found.2, rfl, Option.some.inj h⟩, fun ⟨spot, node, h, heq⟩ => ?_⟩
    rw [Except.ok.inj h, ← heq]

theorem ne_nil_of_node? (hnode : disk.node? l = some node) (hne : node ≠ .directory) : l ≠ [] := by
  rintro rfl
  exact hne (Option.some.inj hnode).symm

theorem directoriesIn_erase (disk : Disk) (h : l ≠ []) : DirectoriesIn (disk.erase l) disk := by
  intro l' hl'
  rw [node?_erase disk h] at hl'
  split at hl'
  · cases hl'
  · exact hl'

theorem directoriesIn_of_erase (hnode : disk.node? l = some node) (hne : node ≠ .directory) :
    DirectoriesIn disk (disk.erase l) := by
  intro l' hl'
  rw [node?_erase disk (ne_nil_of_node? hnode hne), if_neg ?_]
  · exact hl'
  · rintro rfl
    exact hne (Option.some.inj (hnode.symm.trans hl'))

/-- **Where nothing but one file is gone, all other paths lead where they led.** -/
theorem place?_erase (hnode : disk.node? l = some node) (hne : node ≠ .directory) (q : Path) :
    (disk.erase l).place? q = if disk.place? q = some l then none else disk.place? q := by
  have hnil := ne_nil_of_node? hnode hne
  have hiff (l' : Location) :
      (disk.erase l).place? q = some l' ↔ disk.place? q = some l' ∧ l' ≠ l := by
    simp only [place?_eq_some_iff, find_eq_ok_iff]
    constructor
    · rintro ⟨spot, node', ⟨hwalk, hname, hnode', hend⟩, rfl⟩
      rw [node?_erase disk hnil] at hnode'
      split at hnode'
      · cases hnode'
      · next hother =>
        exact ⟨⟨spot, node', ⟨walk_mono (directoriesIn_erase disk hnil) hwalk, hname, hnode', hend⟩,
          rfl⟩, hother⟩
    · rintro ⟨⟨spot, node', ⟨hwalk, hname, hnode', hend⟩, rfl⟩, hother⟩
      refine ⟨spot, node', ⟨walk_mono (directoriesIn_of_erase hnode hne) hwalk, hname, ?_, hend⟩, rfl⟩
      rwa [node?_erase disk hnil, if_neg hother]
  refine Option.ext fun l' => ?_
  rw [hiff]
  by_cases hplace : disk.place? q = some l
  · rw [if_pos hplace, hplace]
    simp [eq_comm]
  · rw [if_neg hplace]
    exact and_iff_left_of_imp fun h heq => hplace (heq ▸ h)

/-- **After a file was removed no path leads to it, and all others lead where they led.** -/
theorem place?_remove (h : disk.remove p = .ok disk') : ∃ l, disk.place? p = some l ∧
    ∀ q, disk'.place? q = if disk.place? q = some l then none else disk.place? q := by
  rw [remove] at h
  cases hfind : disk.find p with
  | error error =>
    rw [hfind] at h
    cases h
  | ok found =>
    obtain ⟨spot, node⟩ := found
    have hnode := (find_eq_ok_iff.mp hfind).2.2.1
    have hplace := place?_eq_some_iff.mpr ⟨spot, node, hfind, rfl⟩
    rw [hfind] at h
    cases node with
    | directory => cases h
    | _ =>
      rw [← Except.ok.inj h]
      exact ⟨spot.location, hplace, place?_erase hnode nofun⟩

/-- Where nothing is there to be removed, the path leads nowhere. -/
theorem place?_eq_none_of_remove (h : disk.remove p = .error .missing) : disk.place? p = none := by
  rw [remove] at h
  rw [place?]
  cases hfind : disk.find p with
  | error error => rfl
  | ok found =>
    obtain ⟨spot, node⟩ := found
    rw [hfind] at h
    cases node <;> cases h

/-! ## Writing -/

/-- Whether a content can be written where a node is, or where there is none. -/
def Accepts (content : Bytes) : Option Node → Prop
  | some .directory => False
  | some (.device isFull) => (isFull && !content.isEmpty) = false
  | _ => True

/-- The disk with a content written at a location; a device stays as it is. -/
def filled (disk : Disk) (l : Location) (content : Bytes) : Disk :=
  match disk.node? l with
  | some (.device _) => disk
  | _ => disk.put l (.file content)

theorem write_eq_ok_iff : disk.write p content = .ok disk' ↔
    ∃ spot, disk.walk p = .ok spot ∧ spot.endsInSlash = false ∧ checkName spot.location = .ok () ∧
      Accepts content (disk.node? spot.location) ∧ disk' = disk.filled spot.location content := by
  rw [write]
  cases hwalk : disk.walk p with
  | error error => exact ⟨fun h => (nomatch h), fun ⟨_, h, _⟩ => (nomatch h)⟩
  | ok spot =>
    simp only [bind, Except.bind, Except.ok.injEq, exists_eq_left']
    rw [filled]
    cases hslash : spot.endsInSlash with
    | true => exact ⟨fun h => (nomatch h), fun h => (nomatch h.1)⟩
    | false =>
      cases hname : checkName spot.location with
      | error error =>
        refine ⟨fun h => ?_, fun h => (nomatch h.2.1)⟩
        split at h <;> cases h
      | ok =>
        rcases hnode : disk.node? spot.location with _ | _ | _ | _ | isFull
        · exact ⟨fun h => ⟨rfl, rfl, trivial, (Except.ok.inj h).symm⟩, fun h => h.2.2.2 ▸ rfl⟩
        · exact ⟨fun h => ⟨rfl, rfl, trivial, (Except.ok.inj h).symm⟩, fun h => h.2.2.2 ▸ rfl⟩
        · exact ⟨fun h => (nomatch h), fun h => h.2.2.1.elim⟩
        · exact ⟨fun h => ⟨rfl, rfl, trivial, (Except.ok.inj h).symm⟩, fun h => h.2.2.2 ▸ rfl⟩
        · constructor
          · intro h
            dsimp only at h
            split at h
            · cases h
            split at h
            · cases h
            · next hroom => exact ⟨rfl, rfl, Bool.eq_false_iff.mpr hroom, (Except.ok.inj h).symm⟩
          · rintro ⟨-, -, hroom, rfl⟩
            exact if_neg (Bool.eq_false_iff.mp hroom)

theorem node?_filled (disk : Disk) (haccepts : Accepts content (disk.node? l)) (l' : Location) :
    (disk.filled l content).node? l' = disk.node? l' ∨
      l' = l ∧ (disk.filled l content).node? l' = some (.file content) ∧
        ∀ isFull, disk.node? l ≠ some (.device isFull) := by
  have hnil : l ≠ [] := by
    rintro rfl
    exact haccepts
  rw [filled]
  split
  · exact .inl rfl
  · next hdevice =>
    rw [node?_put disk _ hnil]
    by_cases heq : l' = l
    · exact .inr ⟨heq, if_pos heq, hdevice⟩
    · exact .inl (if_neg heq)

/-- **A write that succeeds behind another one succeeds without it.** -/
theorem write_isOk_of_behind {content' : Bytes} {disk'' : Disk}
    (hq : disk.write q content' = .ok disk') (hp : disk'.write p content = .ok disk'') :
    ∃ disk', disk.write p content = .ok disk' := by
  obtain ⟨spot', -, -, -, haccepts', rfl⟩ := write_eq_ok_iff.mp hq
  obtain ⟨spot, hwalk, hslash, hname, haccepts, -⟩ := write_eq_ok_iff.mp hp
  have hdirectories : DirectoriesIn (disk.filled spot'.location content') disk := by
    intro l hl
    obtain hsame | ⟨-, hfile, -⟩ := node?_filled disk haccepts' l
    · rwa [hsame] at hl
    · cases hfile.symm.trans hl
  refine ⟨_, write_eq_ok_iff.mpr ⟨spot, walk_mono hdirectories hwalk, hslash, hname, ?_, rfl⟩⟩
  obtain hsame | ⟨heq, -, hdevice⟩ := node?_filled disk haccepts' spot.location
  · rwa [hsame] at haccepts
  · -- the first write put its file there, so neither a directory nor a device was there
    rw [← heq] at haccepts' hdevice
    rcases hnode : disk.node? spot.location with _ | _ | _ | _ | isFull
    · trivial
    · trivial
    · rw [hnode] at haccepts'
      exact haccepts'
    · trivial
    · exact absurd hnode (hdevice isFull)

end Disk

/-- A world changes as its disk does. -/
theorem World.run_change (operation : Disk → Except FileError Disk) (world : World) :
    ((change operation).run world : Except FileError Unit × World)
      = match operation world.disk with
        | .error error => (.error error, world)
        | .ok disk => (.ok (), { world with disk := disk }) := by
  rw [change, StateT.run_bind]
  change StateT.run (match operation world.disk with
    | .error error => (return .error error : Bench (Except FileError Unit))
    | .ok disk => do set { world with disk := disk }; return .ok ()) world = _
  cases operation world.disk <;> rfl

/-- Removing a file from a world leaves it as it is, or takes the file from its disk. -/
theorem World.removed_or_refused {p : Path} {answer : Except FileError Unit} {world world' : World}
    (h : (World.host.files.remove p).run world = ((answer, world') : _ × World)) :
    (∃ disk, world.disk.remove p = .ok disk ∧ answer = .ok () ∧
        world' = { world with disk := disk }) ∨
      ∃ error, world.disk.remove p = .error error ∧ answer = .error error ∧ world' = world := by
  change ((change fun disk => disk.remove p).run world : _ × World) = _ at h
  rw [run_change] at h
  cases hremove : world.disk.remove p with
  | ok disk =>
    rw [hremove] at h
    obtain ⟨rfl, rfl⟩ := Prod.mk.inj h
    exact .inl ⟨disk, rfl, rfl, rfl⟩
  | error error =>
    rw [hremove] at h
    obtain ⟨rfl, rfl⟩ := Prod.mk.inj h
    exact .inr ⟨error, rfl, rfl, rfl⟩

end KernelIsa
